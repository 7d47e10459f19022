import Ensemble.Proofs.Compile.Names
import Ensemble.Proofs.Engine.Preparation
import Ensemble.Proofs.Execution.Outputs

/-!
# What calls can see

The message that a call shows and sends is its template, bound with the
outputs of the steps before it: those of earlier siblings, of itself or of
a node above it, in a sequence. Nothing depends on the schedule, and the
branches of a parallel node see nothing of each other
(`messages_from_earlier_siblings`).

`Faithful` is what is shown of a history: all messages are as they should
be. It can be taken apart along a history and along its branches, so the
induction on the tree only has to say what the steps of a sequence add to
the scope.
-/

namespace Ensemble

namespace Execution

/-! ## Faithful histories -/

/-- All messages of a history are among those of `S`, which gives the message
for the input that an agent is shown for a step: those that are shown, and
those that requests start with. A task sends no request before it has shown
a message, and the first request after that has nothing but the message. -/
structure Faithful (S : String → String → Json → Message → Prop) (h : History Act Act.Reply) :
    Prop where
  shown : ∀ x ∈ h, ∀ agent step input, x.2.act = .emitStart agent step input →
    ∃ m, S agent step input m
  sent : ∀ task before x after request, h.of task = before ++ x :: after →
    x.act = .send request → ∃ earlier agent step input m between rest,
      before = earlier ++ ⟨.emitStart agent step input, ()⟩ :: between
        ∧ (∀ y ∈ between, ∀ agent step input, y.act ≠ .emitStart agent step input)
        ∧ S agent step input m ∧ request.messages = m :: rest ∧ (between = [] → rest = [])

namespace Faithful

variable {S T : String → String → Json → Message → Prop} {h h' : History Act Act.Reply}

theorem mono (hf : Faithful S h) (hST : ∀ agent step input m, S agent step input m →
    T agent step input m) : Faithful T h := by
  refine ⟨fun x hx agent step input hact => ?_, fun task before x after request hsplit hact => ?_⟩
  · obtain ⟨m, hm⟩ := hf.shown x hx agent step input hact
    exact ⟨m, hST _ _ _ _ hm⟩
  · obtain ⟨earlier, agent, step, input, m, between, rest, hbefore, hbetween, hm, hrest⟩ :=
      hf.sent task before x after request hsplit hact
    exact ⟨earlier, agent, step, input, m, between, rest, hbefore, hbetween, hST _ _ _ _ hm, hrest⟩

/-- Where nothing is shown or sent there is nothing to see. -/
theorem quiet (hshown : ∀ x ∈ h, ∀ agent step input, x.2.act ≠ .emitStart agent step input)
    (hsent : ∀ x ∈ h, ∀ request, x.2.act ≠ .send request) : Faithful S h := by
  refine ⟨fun x hx agent step input hact => absurd hact (hshown x hx _ _ _), ?_⟩
  intro task before x after request hsplit hact
  have hmem : x ∈ h.of task := hsplit ▸ List.mem_append_right _ (List.mem_cons_self ..)
  exact absurd hact (hsent _ (History.mem_of.mp hmem) request)

theorem append (hf : Faithful S h) (hf' : Faithful S h') : Faithful S (h ++ h') := by
  refine ⟨fun x hx => (List.mem_append.mp hx).elim (hf.shown x) (hf'.shown x), ?_⟩
  intro task before x after request hsplit hact
  rw [History.of_append] at hsplit
  rcases List.append_eq_append_iff.mp hsplit with ⟨between, hb, hx⟩ | ⟨tail, hh, hx⟩
  · obtain ⟨earlier, agent, step, input, m, between', rest, rfl, hrest⟩ :=
      hf'.sent task between x after request hx hact
    exact ⟨h.of task ++ earlier, agent, step, input, m, between', rest,
      by rw [hb, List.append_assoc], hrest⟩
  · cases tail with
    | nil =>
        rw [List.nil_append] at hx
        obtain ⟨earlier, agent, step, input, m, between, rest, hnil, -⟩ :=
          hf'.sent task [] x after request hx.symm hact
        exact absurd hnil.symm (by simp)
    | cons y tail =>
        obtain ⟨rfl, -⟩ := List.cons.inj hx
        exact hf.sent task before x tail request hh hact

/-- A fork is faithful if its branches are. -/
theorem of_branches {n : Nat} (hwithin : h.Within n) (hf : ∀ i < n, Faithful S (h.below i)) :
    Faithful S h := by
  refine ⟨fun x hx agent step input hact => ?_, fun task before x after request hsplit hact => ?_⟩
  · obtain ⟨i, hi, path, hpath⟩ := hwithin x hx
    have hmem : (path, x.2) ∈ h.below i := History.mem_below.mpr (hpath ▸ hx)
    exact (hf i hi).shown _ hmem agent step input hact
  · have hmem : x ∈ h.of task := hsplit ▸ List.mem_append_right _ (List.mem_cons_self ..)
    obtain ⟨i, hi, path, hpath⟩ := hwithin _ (History.mem_of.mp hmem)
    obtain rfl : task = i :: path := hpath
    rw [← History.of_below] at hsplit
    exact (hf i hi).sent path before x after request hsplit hact

end Faithful

/-- A call that shows its message and goes on with it is faithful. -/
theorem faithful_of_opened {S : String → String → Json → Message → Prop} {c : Call} {m : Message}
    {later : List (Exchange Act Act.Reply)}
    (hm : S c.agent c.name m.toJson.canonical m) (hopened : Opened c m later) :
    Faithful S (History.own (opening c m ++ later)) := by
  have hnone : ∀ y ∈ later, ∀ agent step input, y.act ≠ .emitStart agent step input := by
    intro y hy agent step input hact
    have hconv := hopened.1 y hy
    rw [hact] at hconv
    exact hconv
  constructor
  · intro x hx agent step input hact
    obtain ⟨y, hy, rfl⟩ := List.mem_map.mp hx
    rcases List.mem_append.mp hy with hy | hy
    · rcases List.mem_cons.mp hy with rfl | hy
      · cases hact
      · obtain rfl := List.mem_singleton.mp hy
        cases hact
        exact ⟨m, hm⟩
    · exact absurd hact (hnone y hy agent step input)
  · intro task before x after request hsplit hact
    cases task with
    | cons i path => simp at hsplit
    | nil =>
        rw [History.of_own_root] at hsplit
        obtain ⟨between, rfl, hx⟩ : ∃ between, before = opening c m ++ between
            ∧ later = between ++ x :: after := by
          rcases List.append_eq_append_iff.mp hsplit with ⟨between, hb, hx⟩ | ⟨tail, hh, hx⟩
          · exact ⟨between, hb, hx⟩
          cases tail with
          | nil => exact ⟨[], by simpa using hh.symm, by simpa using hx.symm⟩
          | cons y tail =>
              -- the opening has no request
              obtain ⟨rfl, -⟩ := List.cons.inj hx
              have hmem : x ∈ opening c m := hh ▸ List.mem_append_right _ (List.mem_cons_self ..)
              rcases List.mem_cons.mp hmem with rfl | hmem
              · cases hact
              · obtain rfl := List.mem_singleton.mp hmem
                cases hact
        have hin : ∀ y ∈ between ++ x :: after, y ∈ later := fun y hy => hx ▸ hy
        have hconv := hopened.1 x (hin x (List.mem_append_right _ (List.mem_cons_self ..)))
        rw [hact] at hconv
        obtain ⟨rest, hrest⟩ := hconv
        refine ⟨[⟨.logStart c.name, ()⟩], c.agent, c.name, m.toJson.canonical, m, between, rest,
          rfl, fun y hy => hnone y (hin y (List.mem_append_left _ hy)), hm, hrest, ?_⟩
        rintro rfl
        have hfirst := hopened.2 x after request hx hact
        exact (List.cons.inj (hrest.symm.trans hfirst)).2

/-! ## Scopes -/

/-- The call at some place of a tree is shown a message that is bound with
what it can see: the texts of the values of steps before it in the tree, or
else of what the whole tree sees. -/
def Bears (root : Step) (outer : String → Option Json) (reply : String → String)
    (agent step : String) (input : Json) (m : Message) : Prop :=
  ∃ path c lookup, root.at? path = some (.call c) ∧ c.agent = agent ∧ c.name = step ∧
    root.Tells path outer reply lookup ∧ c.bind? lookup = some m ∧ input = m.toJson.canonical

variable {r : Registry} {policy : FailurePolicy} {reply : String → String}

/-- A step that sees nothing in its tree is told the texts of its scope. -/
theorem tells_textOf (s : Step) (reply : String → String) (scope : Bindings) :
    s.Tells [] (fun k => scope.lookup k) reply (textOf scope) := by
  intro name
  rw [Step.before, Step.lastKnownAs, List.filter_nil, List.getLast?_nil, Option.map_none,
    Option.none_or, textOf]
  show Option.Rel Json.Shows (scope.lookup name) ((scope.lookup name).map Json.plain)
  cases scope.lookup name with
  | none => exact .none
  | some v => exact .some (Json.shows_plain v)

/-- A step of a sequence bears what the sequence does, if it sees the steps
before it. -/
theorem Bears.of_sequence {name : String} {done rest : List Step} {s : Step}
    {outer : String → Option Json} {scope : Bindings}
    (hscope : ∀ k, scope.lookup k
      = ((Step.lastKnownAs k (Step.postOrderAll done)).map (Step.value reply)).or (outer k))
    {agent step : String} {input : Json} {m : Message}
    (hb : Bears s (fun k => scope.lookup k) reply agent step input m) :
    Bears (.sequence name (done ++ s :: rest)) outer reply agent step input m := by
  obtain ⟨path, c, lookup, hat, hagent, hstep, htells, hbind, hinput⟩ := hb
  have hs : (done ++ s :: rest)[done.length]? = some s := by simp
  refine ⟨done.length :: path, c, lookup, ?_, hagent, hstep, fun k => ?_, hbind, hinput⟩
  · rw [Step.at?_cons hs, hat]
  · have htake : (done ++ s :: rest).take done.length = done := List.take_left
    rw [Step.before_sequence hs, htake, Step.lastKnownAs_append, Option.map_or, Option.or_assoc,
      ← hscope]
    exact htells k

/-- A branch of a parallel node bears what the node does. -/
theorem Bears.of_parallel {name : String} {steps : List Step} {i : Nat} {s : Step}
    (hs : steps[i]? = some s) {outer : String → Option Json} {agent step : String} {input : Json}
    {m : Message} (hb : Bears s outer reply agent step input m) :
    Bears (.parallel name steps) outer reply agent step input m := by
  obtain ⟨path, c, lookup, hat, hagent, hstep, htells, hbind, hinput⟩ := hb
  refine ⟨i :: path, c, lookup, ?_, hagent, hstep, fun k => ?_, hbind, hinput⟩
  · rw [Step.at?_cons hs, hat]
  · rw [Step.before_parallel hs]
    exact htells k

/-! ## Steps -/

/-- What is to be shown of a step: at any time of any run its calls are shown
what they can see. -/
def Sees (r : Registry) (policy : FailurePolicy) (reply : String → String) (s : Step) : Prop :=
  ∀ scope h p, (step r s scope).Reaches policy h p → (s.calls.map Call.name).Nodup →
    (∀ c ∈ s.calls, lastAnswer (History.acts h) c.name = reply c.name) →
    Faithful (Bears s (fun k => scope.lookup k) reply) h

theorem faithful_of_skips {S : String → String → Json → Message → Prop}
    {h : History Act Act.Reply} (hskips : ∀ x ∈ h, x.2.act.IsSkip) : Faithful S h := by
  refine .quiet (fun x hx agent step input hact => ?_) fun x hx request hact => ?_
  · have hskip := hskips x hx
    rw [hact] at hskip
    exact hskip
  · have hskip := hskips x hx
    rw [hact] at hskip
    exact hskip

theorem call_sees (c : Call) : Sees r policy reply (.call c) := by
  intro scope h p hr _ _
  obtain ⟨xs, q, rfl, hruns⟩ := reaches_call hr
  rcases runs_call hruns with hstart | ⟨m, later, hbind, rfl, hopened⟩
  · refine .quiet (fun x hx agent step input hact => ?_) fun x hx request hact => ?_
    · obtain ⟨y, hy, rfl⟩ := List.mem_map.mp hx
      exact absurd ((hstart y hy).symm.trans hact) (by simp)
    · obtain ⟨y, hy, rfl⟩ := List.mem_map.mp hx
      exact absurd ((hstart y hy).symm.trans hact) (by simp)
  · exact faithful_of_opened
      ⟨[], c, textOf scope, rfl, rfl, rfl, tells_textOf _ _ scope, hbind, rfl⟩ hopened

/-- The rest of a sequence is shown what it can see, when `done` are the
steps before it. -/
theorem sequence_sees {steps : List Step} (hsteps : ∀ s ∈ steps, Sees r policy reply s)
    (hnodup : (Step.callNames steps).Nodup) {name : String} {done : List Step}
    {outer : String → Option Json} {scope produced : Bindings} {last : Json}
    (hscope : ∀ k, scope.lookup k
      = ((Step.lastKnownAs k (Step.postOrderAll done)).map (Step.value reply)).or (outer k))
    {h : History Act Act.Reply} {p : Process Act Act.Reply StepOutcome}
    (hr : (sequence r name scope produced last steps).Reaches policy h p)
    (hreply : ∀ n ∈ Step.callNames steps, lastAnswer (History.acts h) n = reply n) :
    Faithful (Bears (.sequence name (done ++ steps)) outer reply) h := by
  induction steps generalizing done scope produced last h with
  | nil =>
      rw [sequence] at hr
      obtain ⟨rfl, -⟩ := Script.reaches_ret hr
      exact .quiet (by simp) (by simp)
  | cons s rest ih =>
      have hnames := hnodup
      rw [Step.callNames_cons] at hnames
      obtain ⟨hs, hrest, -⟩ := List.nodup_append.mp hnames
      have hown : ∀ n ∈ s.calls.map Call.name, n ∈ Step.callNames (s :: rest) := by
        intro n hn
        rw [Step.callNames_cons]
        exact List.mem_append_left _ hn
      have hfirst : ∀ {before q}, (step r s scope).Reaches policy before q →
          (∀ n ∈ s.calls.map Call.name, lastAnswer (History.acts before) n = reply n) →
          Faithful (Bears (.sequence name (done ++ s :: rest)) outer reply) before := by
        intro before q hq hbefore
        refine (hsteps s (List.mem_cons_self ..) scope before q hq hs fun c hc =>
          hbefore c.name (List.mem_map_of_mem hc)).mono fun _ _ _ _ hb => hb.of_sequence hscope
      rcases reaches_sequence hr with ⟨q, hq⟩ | ⟨before, later, rfl, hnext⟩
      · exact hfirst hq fun n hn => hreply n (hown n hn)
      rcases hnext with ⟨⟨q, hq⟩, hskips⟩ | ⟨first, hend, hlater⟩
      · refine (hfirst hq fun n hn => ?_).append (faithful_of_skips hskips)
        rw [← hreply n (hown n hn), History.acts_append,
          lastAnswer_append_left (skips_silent hskips n)]
      obtain ⟨hbefore, hafter⟩ := replies_cons hnodup hend.choose_spec.1 hlater hreply
      obtain ⟨-, hbound⟩ := step_yields s scope before first hend hs fun c hc =>
        hbefore c.name (List.mem_map_of_mem hc)
      have hscope' : ∀ k, (Table.extend scope first.bindings).lookup k
          = ((Step.lastKnownAs k (Step.postOrderAll (done ++ [s]))).map (Step.value reply)).or
            (outer k) := by
        intro k
        rw [Table.lookup_extend hbound.ascending, hbound.lookup, hscope, ← Option.or_assoc,
          ← Option.map_or, ← Step.lastKnownAs_append, Step.postOrderAll_append, Step.postOrderAll,
          Step.postOrderAll, List.append_nil]
      have hsplit : done ++ s :: rest = done ++ [s] ++ rest := by simp
      refine (hfirst hend.choose_spec.1 hbefore).append ?_
      rw [hsplit]
      exact ih (fun t ht => hsteps t (List.mem_cons_of_mem _ ht)) hrest hscope' hlater hafter

theorem parallel_sees {steps : List Step} (hsteps : ∀ s ∈ steps, Sees r policy reply s)
    (name : String) : Sees r policy reply (.parallel name steps) := by
  intro scope h p hr hnodup hreply
  rw [Step.calls_parallel] at hnodup hreply
  obtain ⟨before, later, rfl, hwithin, hreach, hskips⟩ := reaches_parallel hr
  refine (Faithful.of_branches hwithin fun i hi => ?_).append (faithful_of_skips hskips)
  have hs := List.getElem?_eq_getElem hi
  obtain ⟨q, hq⟩ := hreach i _ hs
  refine (hsteps _ (List.getElem_mem hi) scope _ q hq
    (Step.nodup_of_callNames hnodup (List.getElem_mem hi)) fun c hc => ?_).mono
    fun _ _ _ _ hb => hb.of_parallel hs
  have hname : c.name ∈ steps[i].calls.map Call.name := List.mem_map_of_mem hc
  rw [← hreply c (List.mem_flatMap.mpr ⟨_, List.getElem_mem hi, hc⟩), History.acts_append,
    lastAnswer_append_left (skips_silent hskips c.name), lastAnswer, lastAnswer,
    branch_answers hnodup hwithin hreach hs hname]

theorem step_sees (s : Step) : Sees r policy reply s := by
  induction s with
  | call c => exact call_sees c
  | sequence name steps ih =>
      intro scope h p hr hnodup hreply
      rw [Step.calls_sequence] at hnodup hreply
      rw [step] at hr
      have hscope : ∀ k, scope.lookup k = ((Step.lastKnownAs k (Step.postOrderAll [])).map
          (Step.value reply)).or (scope.lookup k) := fun _ => rfl
      refine sequence_sees ih hnodup hscope hr fun n hn => ?_
      obtain ⟨c, hc, rfl⟩ := List.mem_map.mp hn
      exact hreply c hc
  | parallel name steps ih => exact parallel_sees ih name

/-! ## Runs of an engine -/

/-- **What calls can see.** At any time of any run of a compiled plan, every
message that is shown or sent is that of a call, bound with the outputs of
the steps before it: under a name it finds the text of the value of the last
step, in post-order, that goes by that name among the subtrees of earlier
siblings in a sequence, of the call or of a node above it, and nothing if
there is none. The values are made of the answers in the trace; the text of a
string is the string, that of any other value its compact JSON. -/
theorem messages_from_earlier_siblings {M : Type} [LanguageModel M] {master : MasterAgent}
    {key : Option String} {inputs : ResolvedInputs} {injectsAll : Bool} (p : Prepared)
    (hplan : compile master key inputs injectsAll = .ok p.plan) (config : FanoutConfig)
    (drift : World M → World M → Prop)
    (hdrift : ∀ w w', drift w w' → w'.sink.chunks = w.sink.chunks) {w₀ w : World M}
    (hfresh : w₀.sink.chunks = []) {h : History Act Act.Reply}
    {q : Process Act Act.Reply StepOutcome}
    (hrun : Process.Run config World.perform drift (.line (Engine.script p)) w₀ h q w) :
    let message := Bears p.plan.root (fun _ => none) (lastAnswer (w.sink.chunks.map Chunk.act))
    (∀ agent step input time, .flowStart agent step input time ∈ w.sink.chunks →
        ∃ m, message agent step input m) ∧
      Faithful message h := by
  intro message
  have htrace := World.trace_of_run hdrift hrun
  rw [hfresh, List.map_nil, List.nil_append] at htrace
  have hanswers : ∀ n, lastAnswer (w.sink.chunks.map Chunk.act) n
      = lastAnswer (History.acts h) n := by
    intro n
    rw [htrace, lastAnswer, answers_filter_writes]
    rfl
  have hfaithful : Faithful message h := by
    obtain ⟨before, later, q', rfl, hq, hcloses⟩ := Engine.script_reaches hrun.reaches
    refine Faithful.append ?_ (.quiet (fun x hx agent step input hact => ?_)
      fun x hx request hact => ?_)
    · have hnodup : (p.plan.root.calls.map Call.name).Nodup :=
        (Compile.compiled_names_nodup hplan).sublist p.plan.root.callNames_sublist
      refine step_sees p.plan.root [] before q' hq hnodup fun c hc => ?_
      have hsilent : answers c.name (History.acts later) = [] := by
        refine List.filterMap_eq_nil_iff.mpr fun a ha => ?_
        obtain ⟨x, hx, rfl⟩ := List.mem_map.mp ha
        have hclosing := hcloses x hx
        cases hact : x.2.act <;> first | rfl | (rw [hact] at hclosing; cases hclosing)
      rw [hanswers, History.acts_append, lastAnswer_append_left hsilent]
    · have hx := hcloses x hx
      rw [hact] at hx
      exact hx
    · have hx := hcloses x hx
      rw [hact] at hx
      exact hx
  refine ⟨fun agent step input time hmem => ?_, hfaithful⟩
  have hact : Act.emitStart agent step input ∈ (History.acts h).filter Act.writes :=
    htrace ▸ List.mem_map.mpr ⟨_, hmem, rfl⟩
  obtain ⟨x, hx, hxact⟩ := List.mem_map.mp (List.mem_filter.mp hact).1
  exact hfaithful.shown x hx agent step input hxact

/-- An agent that is asked for what another one has said last, and for all of
what it has said. -/
def askForAll : MasterAgent :=
  { Compile.askAbout with
    flows := [{ name := "main", code := none
                flow := .sequence
                  [.parallel [.agentCall "a" (some "one"), .agentCall "a" (some "two")],
                    .agentCall "b" (some "{{a}} of {{main/0:parallel}}")] }] }

def quoting : Engine := { Engine.echoing with agents := [("duo", askForAll)] }

/-- All texts that models were sent, in order. -/
def textsSent {M : Type} (e : Environment M) : List String :=
  e.requests.flatMap fun sent => sent.2.messages.map Message.text

/-- Of two branches that the call behind them can see, the one that ends first
comes first, but the call sees the later one of the plan. The node that joins
them is shown as JSON. -/
theorem messages_from_earlier_siblings_echoed :
    ∃ (p : Prepared) (w : World Rehearsal.ScriptedModel) (h : History Act Act.Reply)
      (q : Process Act Act.Reply StepOutcome),
      Process.Run quoting.config.fanout World.perform Eq (.line (Engine.script p))
          (World.start Engine.silentEnvironment .buffered p.log) h q w ∧
        q.ending?.isSome = true ∧
        textsSent w.environment = ["two", "one", "<two> of [\"<one>\",\"<two>\"]"] ∧
        Faithful
          (Bears p.plan.root (fun _ => none) (lastAnswer (w.sink.chunks.map Chunk.act))) h := by
  have hplayed : (quoting.prepareAllowed Engine.emptyServices Engine.echoed).toOption.any (fun p =>
      (Process.play? quoting.config.fanout World.perform Engine.secondFirst
        (.line (Engine.script p)) (World.start Engine.silentEnvironment .buffered p.log)).any
        fun x => x.2.1.ending?.isSome && textsSent x.2.2.environment
          == ["two", "one", "<two> of [\"<one>\",\"<two>\"]"]) = true := by
    decide +kernel
  obtain ⟨p, hp, hany⟩ := (Option.any_eq_true ..).mp hplayed
  obtain ⟨⟨h, q, w⟩, hplay, hends⟩ := (Option.any_eq_true ..).mp hany
  obtain ⟨hended, htexts⟩ := (Bool.and_eq_true ..).mp hends
  obtain ⟨master, inputs, -, hplan, -⟩ := Engine.prepareAllowed_eq_ok (eq_ok_of_toOption hp)
  have hrun : Process.Run quoting.config.fanout World.perform Eq (.line (Engine.script p))
      (World.start Engine.silentEnvironment .buffered p.log) h q w :=
    Process.Run.start.play hplay
  have hseen := messages_from_earlier_siblings p hplan quoting.config.fanout Eq
    (fun w w' hw => hw ▸ rfl) rfl hrun
  exact ⟨p, w, h, q, hrun, hended, eq_of_beq htexts, hseen.2⟩

end Execution

end Ensemble
