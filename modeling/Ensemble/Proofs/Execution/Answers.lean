import Ensemble.Proofs.Execution.Calls
import Ensemble.Proofs.Plan.Tree
import Ensemble.Proofs.Run.Trace

/-!
# Answers in a trace

The reply of a call is the text of the last answer that the trace shows
for its step (`call_completed`). A step shows no answers but those of its
own calls, so the parts of a history in which others run can be left out
when one looks for them (`step_silent`, `answers_below`).
-/

namespace Ensemble

/-! ## Answers in a trace -/

/-- The text that the first of some messages begins with. -/
def leadText (messages : List Message) : String :=
  ((messages.head?.bind fun m => m.content.head?).bind Part.text?).getD ""

/-- The answer that an act shows for a step. -/
def Act.answer? (step : String) : Act → Option String
  | .emitFinish _ _ shown messages _ _ => if shown = step then some (leadText messages) else none
  | _ => none

/-- All answers for a step, in order. -/
def answers (step : String) (acts : List Act) : List String := acts.filterMap (Act.answer? step)

/-- The last answer for a step. -/
def lastAnswer (acts : List Act) (step : String) : String := (answers step acts).getLast?.getD ""

theorem answers_append (step : String) (acts acts' : List Act) :
    answers step (acts ++ acts') = answers step acts ++ answers step acts' :=
  List.filterMap_append

/-- An act shows no answers but those of some steps. -/
def Act.AnswersIn (names : List String) (a : Act) : Prop :=
  ∀ step, a.answer? step ≠ none → step ∈ names

theorem answers_eq_nil {names : List String} {acts : List Act} {step : String}
    (hacts : ∀ a ∈ acts, a.AnswersIn names) (hstep : step ∉ names) : answers step acts = [] := by
  refine List.filterMap_eq_nil_iff.mpr fun a ha => ?_
  by_contra hanswer
  exact hstep (hacts a ha step hanswer)

theorem lastAnswer_append_left {acts acts' : List Act} {step : String}
    (hnone : answers step acts' = []) : lastAnswer (acts ++ acts') step = lastAnswer acts step := by
  rw [lastAnswer, answers_append, hnone, List.append_nil]
  rfl

theorem lastAnswer_append_right {acts acts' : List Act} {step : String}
    (hnone : answers step acts = []) : lastAnswer (acts ++ acts') step = lastAnswer acts' step := by
  rw [lastAnswer, answers_append, hnone, List.nil_append]
  rfl

/-- Only what writes shows an answer. -/
theorem answers_filter_writes (step : String) (acts : List Act) :
    answers step (acts.filter Act.writes) = answers step acts := by
  induction acts with
  | nil => rfl
  | cons a rest ih =>
      cases hwrites : a.writes with
      | true =>
          rw [List.filter_cons_of_pos hwrites]
          simp only [answers, List.filterMap_cons] at ih ⊢
          rw [ih]
      | false =>
          have hnone : a.answer? step = none := by
            cases a <;> first | rfl | cases hwrites
          rw [List.filter_cons_of_neg (by simp [hwrites]), ih]
          simp [answers, hnone]

/-- Answers that only one branch shows are those of that branch. -/
theorem answers_below {h : History Act Act.Reply} {i : Nat} {step : String}
    (honly : ∀ x ∈ h, x.2.act.answer? step ≠ none → ∃ path, x.1 = i :: path) :
    answers step (History.acts (h.below i)) = answers step (History.acts h) := by
  induction h with
  | nil => rfl
  | cons x h ih =>
      have hrest := ih fun y hy => honly y (List.mem_cons_of_mem _ hy)
      obtain ⟨task, x⟩ := x
      by_cases hin : ∃ path, task = i :: path
      · obtain ⟨path, rfl⟩ := hin
        rw [History.below_cons_same]
        simp only [answers, History.acts, List.map_cons, List.filterMap_cons] at hrest ⊢
        rw [hrest]
      · have hnone : x.act.answer? step = none := by
          by_contra hanswer
          exact hin (honly (task, x) (List.mem_cons_self ..) hanswer)
        have hbelow : History.below i ((task, x) :: h) = History.below i h := by
          cases task with
          | nil => rfl
          | cons j path =>
              have hne : j ≠ i := by
                rintro rfl
                exact hin ⟨path, rfl⟩
              exact History.below_cons_ne hne path x h
        rw [hbelow, hrest]
        simp [answers, History.acts, hnone]

/-! ## Answers of calls -/

namespace Execution

variable {r : Registry} {policy : FailurePolicy}

theorem leadText_roundMessages (answer : ModelResponse) (results : List Part) :
    leadText (AgentHandle.roundMessages answer results) = answer.text := by
  unfold leadText AgentHandle.roundMessages AgentHandle.assistantMessage
  by_cases hempty : answer.text.isEmpty = true
  · have htext : answer.text = "" := by simpa using hempty
    rw [if_pos hempty, htext]
    cases answer.toolCalls <;> rfl
  · rw [if_neg hempty]
    rfl

theorem answers_uses {step : String} {xs : List (Exchange Act Act.Reply)}
    (huses : ∀ x ∈ xs, x.act.IsUse) : answers step (xs.map Exchange.act) = [] := by
  refine List.filterMap_eq_nil_iff.mpr fun a ha => ?_
  obtain ⟨x, hx, rfl⟩ := List.mem_map.mp ha
  have huse := huses x hx
  cases hact : x.act <;> first | rfl | (rw [hact] at huse; cases huse)

theorem answers_settled (h : AgentHandle) (step : String) (answer : ModelResponse)
    (results : List Part) (usage : SessionUsage) :
    answers step ((h.settled step answer results usage).map Exchange.act) = [answer.text] := by
  have hfinished : (h.finished step answer results).act.answer? step = some answer.text := by
    simp [AgentHandle.finished, Act.answer?, leadText_roundMessages]
  have hrecorded : answers step
      ((h.accountant.recorded answer.usage answer.finishReason usage).map Exchange.act) = [] := by
    unfold Accountant.recorded
    split <;> rfl
  rw [AgentHandle.settled, List.map_append, answers_append, hrecorded]
  simp [answers, hfinished]

/-- A call that succeeds does so with the last answer of its conversation. -/
theorem conversation_answer {h : AgentHandle} {step : String} {left : Nat}
    {history : List Message} {reply : AgentReply} {xs : List (Exchange Act Act.Reply)}
    {out : Option (Except CallError AgentReply)}
    (hc : h.Conversation step left history reply xs out) {final : AgentReply}
    (hout : out = some (.ok final)) :
    (answers step (xs.map Exchange.act)).getLast?.getD reply.text = final.text := by
  induction hc with
  | spent history reply =>
      obtain rfl : reply = final := Except.ok.inj (Option.some.inj hout)
      rfl
  | unanswered late => cases hout
  | crashed crash => cases hout
  | refused answer used => cases hout
  | failed answer used => cases hout
  | @last left history reply pending r uses results usage answer used none =>
      obtain rfl : reply.after r results = final := Except.ok.inj (Option.some.inj hout)
      rw [List.map_cons, List.map_append]
      have hall : answers step (uses.map Exchange.act
          ++ (h.settled step r results usage).map Exchange.act) = [r.text] := by
        rw [answers_append, answers_uses used.isUse, answers_settled]
        rfl
      exact congrArg (fun ts : List String => ts.getLast?.getD reply.text) hall
  | @again left history reply pending r uses rest results usage out answer used asks more ih =>
      have hmore := ih hout
      have hall : answers step ((⟨.send (h.request history), pending⟩
          :: (uses ++ h.settled step r results usage ++ rest)).map Exchange.act)
            = r.text :: answers step (rest.map Exchange.act) := by
        rw [List.map_cons, List.map_append, List.map_append]
        change answers step (_ ++ _ ++ _) = _
        rw [answers_append, answers_append, answers_uses used.isUse, answers_settled]
        rfl
      rw [hall, List.getLast?_cons]
      exact hmore

/-! ## What a step performs -/

section All

variable {P : Act → Prop}

theorem skipAll_ret_all (hskip : ∀ name, P (.logSkip name)) (names : List String)
    (result : Except FlowError StepOutcome) :
    ((skipAll names).andThen fun () => Script.ret result).All P := by
  refine Script.all_andThen_prog ((skipAll_skips names).mono fun a ha => ?_) fun _ => .ret result
  cases a <;> first | exact hskip _ | cases ha

theorem sequence_all (hskip : ∀ name, P (.logSkip name)) {steps : List Step}
    (hsteps : ∀ s ∈ steps, ∀ scope, (step r s scope).All P) (name : String)
    (scope produced : Bindings) (last : Json) :
    (sequence r name scope produced last steps).All P := by
  induction steps generalizing scope produced last with
  | nil =>
      rw [sequence]
      exact .ret _
  | cons s rest ih =>
      rw [sequence]
      refine (hsteps s (List.mem_cons_self ..) scope).andThen fun result => ?_
      cases result with
      | ok first => exact ih (fun t ht => hsteps t (List.mem_cons_of_mem _ ht)) _ _ _
      | error e => exact skipAll_ret_all hskip _ _

/-- A step performs what its calls perform, and notes of steps left out. -/
theorem step_all (hskip : ∀ name, P (.logSkip name)) (s : Step)
    (hcall : ∀ c ∈ s.calls, ∀ scope, (call r c scope).All P) (scope : Bindings) :
    (step r s scope).All P := by
  induction s generalizing scope with
  | call c =>
      rw [step]
      exact Script.all_andThen_prog (hcall c (List.mem_singleton_self c) scope) fun _ => .ret _
  | sequence name steps ih =>
      rw [step]
      refine sequence_all hskip (fun s hs => ih s hs fun c hc => hcall c ?_) name scope [] .null
      rw [Step.calls_sequence]
      exact List.mem_flatMap.mpr ⟨s, hs, hc⟩
  | parallel name steps ih =>
      rw [step]
      refine .fork (fun script hscript => ?_) fun outcomes => skipAll_ret_all hskip _ _
      rw [branches_eq_map] at hscript
      obtain ⟨s, hs, rfl⟩ := List.mem_map.mp hscript
      refine ih s hs (fun c hc => hcall c ?_) scope
      rw [Step.calls_parallel]
      exact List.mem_flatMap.mpr ⟨s, hs, hc⟩

end All

/-- A call shows no answers but its own. -/
theorem call_answersIn (c : Call) (scope : Bindings) :
    (call r c scope).All (Act.AnswersIn [c.name]) := by
  have hnone : ∀ {a : Act}, (∀ step, a.answer? step = none) → a.AnswersIn [c.name] :=
    fun ha step hstep => absurd (ha step) hstep
  refine call_all r c scope (hnone fun _ => rfl) (fun _ => hnone fun _ => rfl) fun m a ha => ?_
  have hconverses := ha.converses
  cases a <;> first | exact hnone fun _ => rfl | skip
  intro step hstep
  obtain rfl := hconverses
  simp only [Act.answer?, ne_eq, ite_eq_right_iff, reduceCtorEq, imp_false, not_not] at hstep
  exact List.mem_singleton.mpr hstep.symm

/-- A step shows no answers but those of its calls. -/
theorem step_answersIn (s : Step) (scope : Bindings) :
    (step r s scope).All (Act.AnswersIn (s.calls.map Call.name)) := by
  refine step_all (fun name step hstep => absurd rfl hstep) s (fun c hc scope => ?_) scope
  refine (call_answersIn c scope).mono fun a ha step hstep => ?_
  obtain rfl := List.mem_singleton.mp (ha step hstep)
  exact List.mem_map_of_mem hc

/-- Nothing that a step does is an answer of a call outside of it. -/
theorem step_silent {s : Step} {scope : Bindings} {h : History Act Act.Reply}
    {p : Process Act Act.Reply StepOutcome} (hr : (step r s scope).Reaches policy h p)
    {name : String} (hname : name ∉ s.calls.map Call.name) :
    answers name (History.acts h) = [] := by
  have hacts : ∀ a ∈ History.acts h, a.AnswersIn (s.calls.map Call.name) := by
    intro a ha
    obtain ⟨x, hx, rfl⟩ := List.mem_map.mp ha
    exact (step_answersIn s scope).of_reaches hr x hx
  exact answers_eq_nil hacts hname

theorem sequence_silent {steps : List Step} {node : String} {scope produced : Bindings}
    {last : Json} {h : History Act Act.Reply} {p : Process Act Act.Reply StepOutcome}
    (hr : (sequence r node scope produced last steps).Reaches policy h p) {name : String}
    (hname : name ∉ Step.callNames steps) :
    answers name (History.acts h) = [] := by
  have hacts : ∀ a ∈ History.acts h, a.AnswersIn (Step.callNames steps) := by
    intro a ha
    obtain ⟨x, hx, rfl⟩ := List.mem_map.mp ha
    refine (sequence_all (fun _ _ hstep => absurd rfl hstep) (fun s hs scope => ?_) node scope
      produced last).of_reaches hr x hx
    exact Script.All.mono (step_answersIn s scope) fun a ha step hstep =>
      Step.mem_callNames hs (ha step hstep)
  exact answers_eq_nil hacts hname

theorem skips_silent {h : History Act Act.Reply} (hskips : ∀ x ∈ h, x.2.act.IsSkip)
    (name : String) : answers name (History.acts h) = [] := by
  refine List.filterMap_eq_nil_iff.mpr fun a ha => ?_
  obtain ⟨x, hx, rfl⟩ := List.mem_map.mp ha
  have hskip := hskips x hx
  cases hact : x.2.act <;> first | rfl | (rw [hact] at hskip; cases hskip)

/-- If no two calls have one name, the replies to a sequence are those to its
first step and those to the rest. -/
theorem replies_cons {s : Step} {rest : List Step} (hnodup : (Step.callNames (s :: rest)).Nodup)
    {node : String} {scope scope' produced : Bindings} {last : Json}
    {before later : History Act Act.Reply} {p q : Process Act Act.Reply StepOutcome}
    (hfirst : (step r s scope).Reaches policy before p)
    (hrest : (sequence r node scope' produced last rest).Reaches policy later q)
    {reply : String → String} (hreply : ∀ n ∈ Step.callNames (s :: rest),
      lastAnswer (History.acts (before ++ later)) n = reply n) :
    (∀ n ∈ s.calls.map Call.name, lastAnswer (History.acts before) n = reply n) ∧
      ∀ n ∈ Step.callNames rest, lastAnswer (History.acts later) n = reply n := by
  rw [Step.callNames_cons] at hnodup hreply
  obtain ⟨-, -, hdisjoint⟩ := List.nodup_append.mp hnodup
  constructor
  · intro n hn
    have hsilent : answers n (History.acts later) = [] :=
      sequence_silent hrest fun hn' => hdisjoint n hn n hn' rfl
    rw [← hreply n (List.mem_append_left _ hn), History.acts_append,
      lastAnswer_append_left hsilent]
  · intro n hn
    have hsilent : answers n (History.acts before) = [] :=
      step_silent hfirst fun hn' => hdisjoint n hn' n hn rfl
    rw [← hreply n (List.mem_append_right _ hn), History.acts_append,
      lastAnswer_append_right hsilent]

/-- A call that completes does so with the last answer for its step. -/
theorem call_completed {c : Call} {scope : Bindings} {h : History Act Act.Reply}
    {out : StepOutcome} (he : (step r (.call c) scope).Ends policy h (.completed out)) :
    out = callOutcome c (lastAnswer (History.acts h) c.name) := by
  obtain ⟨m, ys, reply, rfl, hagent, rfl⟩ := ends_completed_call he
  rcases ends_callAgent hagent with ⟨handle, -, hconv⟩ | ⟨-, -, herror⟩
  · have hanswer := conversation_answer hconv rfl
    have hacts : answers c.name (History.acts (History.own (opening c m ++ (ys ++
        [⟨.logSuccess c.name, ()⟩, ⟨.count reply.modelCalls reply.toolCalls, ()⟩]))))
        = answers c.name (ys.map Exchange.act) := by
      rw [History.acts_own, List.map_append, List.map_append, answers_append,
        answers_append]
      exact List.append_nil _
    rw [lastAnswer, hacts]
    exact congrArg (callOutcome c) hanswer.symm
  · cases herror

end Execution

end Ensemble
