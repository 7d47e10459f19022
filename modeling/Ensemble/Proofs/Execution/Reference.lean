import Ensemble.Proofs.Agent.Handle
import Ensemble.Proofs.Plan.Tree
import Ensemble.Proofs.Process.Termination
import Ensemble.Run.Execution

/-!
# The reference interpreter

What a plan means when nothing happens at the same time: `Reference.step`
goes through the tree depth first and stops at the first error. A call of
an agent is its own program, run alone against an `Oracle` that answers
every request in the same way.

The first half of the file is about programs whose result does not depend
on which of the allowed replies they get (`Prog.Determined`); calls of
agents are such programs.
-/

namespace Ensemble

/-! ## Programs with one result -/

namespace Prog

variable {A : Type} {R : A → Type} {α γ : Type}

/-- The result of a program when every act has a fixed reply: nothing if
the program crashes. -/
def result (reply : (a : A) → R a) : Prog A R α → Option α
  | .ret a => some a
  | .act a next => (next (reply a)).result reply
  | .pause _ next => next.result reply
  | .crash => none

/-- Whatever the replies, as long as they are allowed, the program ends
with `v`. -/
def Always (Ok : (a : A) → R a → Prop) (v : Option α) : Prog A R α → Prop
  | .ret a => v = some a
  | .act a next => ∀ reply, Ok a reply → (next reply).Always Ok v
  | .pause _ next => next.Always Ok v
  | .crash => v = none

/-- The result does not depend on which of the allowed replies came. -/
def Determined (Ok : (a : A) → R a → Prop) (p : Prog A R α) : Prop := ∃ v, p.Always Ok v

variable {Ok : (a : A) → R a → Prop} {p : Prog A R α} {v : Option α}

theorem Always.of_ends (h : p.Always Ok v) {xs : List (Exchange A R)} {out : Option α}
    (hp : p.Ends xs out) (hok : ∀ x ∈ xs, Ok x.act x.reply) : out = v := by
  induction p generalizing xs with
  | ret a => exact (ends_ret hp).2.trans h.symm
  | crash => exact (ends_crash hp).2.trans h.symm
  | act a next ih =>
      obtain ⟨reply, ys, rfl, hnext⟩ := ends_act hp
      exact ih reply (h reply (hok _ (List.mem_cons_self ..))) hnext
        fun x hx => hok x (List.mem_cons_of_mem _ hx)
  | pause ms next ih => exact ih h (ends_pause hp) hok

theorem Always.result_eq (h : p.Always Ok v) {reply : (a : A) → R a}
    (hok : ∀ a, Ok a (reply a)) : p.result reply = v := by
  induction p with
  | ret a => exact h.symm
  | crash => exact h.symm
  | act a next ih => exact ih (reply a) (h (reply a) (hok a))
  | pause ms next ih => exact ih h

theorem Always.bind (h : p.Always Ok v) {f : α → Prog A R γ} {u : Option γ}
    (hf : ∀ a, v = some a → (f a).Always Ok u) (hnone : v = none → u = none) :
    (p.bind f).Always Ok u := by
  induction p with
  | ret a => exact hf a h
  | crash => exact hnone h
  | act a next ih => exact fun reply hok => ih reply (h reply hok)
  | pause ms next ih => exact ih h

theorem Determined.ret (a : α) : (Prog.ret a : Prog A R α).Determined Ok := ⟨some a, rfl⟩

theorem Determined.bind (h : p.Determined Ok) {f : α → Prog A R γ}
    (hf : ∀ a, (f a).Determined Ok) : (p.bind f).Determined Ok := by
  obtain ⟨v, hv⟩ := h
  cases v with
  | none => exact ⟨none, hv.bind (by simp) fun _ => rfl⟩
  | some a =>
      obtain ⟨u, hu⟩ := hf a
      refine ⟨u, hv.bind ?_ (by simp)⟩
      rintro _ ⟨⟩
      exact hu

/-- An allowed run has the result that fixed allowed replies give. -/
theorem Determined.ends (h : p.Determined Ok) {reply : (a : A) → R a} (hreply : ∀ a, Ok a (reply a))
    {xs : List (Exchange A R)} {out : Option α} (hp : p.Ends xs out)
    (hok : ∀ x ∈ xs, Ok x.act x.reply) : out = p.result reply := by
  obtain ⟨v, hv⟩ := h
  rw [hv.of_ends hp hok, hv.result_eq hreply]

end Prog

/-! ## Oracles -/

/-- Models and tools whose answers depend on nothing but the request. -/
structure Oracle where
  model : ModelRequest → ModelOutcome
  tool : Tool → Json → ToolContext → Except ToolError Json

namespace Oracle

/-- Replies that agree with the oracle: models are in time for all agents of
the registry, and sessions can be written. -/
def Allows (o : Oracle) (r : Registry) : (a : Act) → a.Reply → Prop
  | .send request, pending =>
    pending.outcome = o.model request ∧
      ∀ name h limit, r.find? name = some h → h.timeout = some limit → pending.delay ≤ limit
  | .invoke tool args context, result => result = o.tool tool args context
  | .recordSession .., result => ∃ usage, result = .ok usage
  | _, _ => True

/-- The replies of the oracle, all at once. -/
def reply (o : Oracle) : (a : Act) → a.Reply
  | .send request => ({ delay := 0, outcome := o.model request } : PendingModel)
  | .invoke tool args context => o.tool tool args context
  | .recordSession session agent delta =>
    let time : Instant :=
      { year := 1970, month := 1, day := 1, hour := 0, minute := 0, second := 0, nano := 0 }
    (.ok { session, agent, delta, time } : Except String SessionUsage)
  | .logStart _ | .logSuccess _ | .logFailure .. | .logSkip _ | .logError _ => ()
  | .emitStart .. | .emitFinish .. | .emitFinal .. | .emitError _ => ()
  | .aggregate _ | .bill .. | .count .. | .finalize _ | .close => ()

theorem allows_reply (o : Oracle) (r : Registry) (a : Act) : o.Allows r a (o.reply a) := by
  cases a with
  | send request => exact ⟨rfl, fun _ _ _ _ _ => Nat.zero_le _⟩
  | invoke tool args context => exact rfl
  | recordSession session agent delta => exact ⟨_, rfl⟩
  | _ => trivial

end Oracle

/-! ## Calls of agents -/

section Calls

variable {o : Oracle} {r : Registry}

theorem note_determined (a : Act) : (RunProg.note a).Determined (o.Allows r) :=
  ⟨some (), fun _ _ => rfl⟩

theorem invoke_determined (tool : Tool) (args : Json) (context : ToolContext) :
    (RunProg.invoke tool args context).Determined (o.Allows r) :=
  ⟨some (o.tool tool args context), fun _ hok => congrArg some (Eq.symm hok)⟩

namespace AgentHandle

variable {h : AgentHandle} {name : String}

theorem await_always {Ok : (a : Act) → a.Reply → Prop} (pending : PendingModel) :
    (h.await pending).Always Ok (h.awaited pending) := by
  unfold await awaited
  split
  · rfl
  · cases pending.outcome <;> rfl

/-- An answer that comes in time does not depend on when it comes. -/
theorem complete_determined (hfind : r.find? name = some h) (history : List Message) :
    (h.complete history).Determined (o.Allows r) := by
  rw [complete_eq]
  refine ⟨h.awaited { delay := 0, outcome := o.model (h.request history) }, fun pending hok => ?_⟩
  obtain ⟨hout, htime⟩ := hok
  have hlate : ∀ delay : Nat, (∀ limit, h.timeout = some limit → delay ≤ limit) →
      h.timeout.filter (· < delay) = none := by
    intro delay hdelay
    refine Option.filter_eq_none_iff.mpr fun limit hlimit => ?_
    simpa using hdelay limit hlimit
  have hsame : h.awaited pending
      = h.awaited { delay := 0, outcome := o.model (h.request history) } := by
    unfold awaited
    rw [hlate 0 fun _ _ => Nat.zero_le _, hlate _ fun limit => htime name h limit hfind, hout]
  exact hsame ▸ await_always pending

theorem runTool_determined (context : ToolContext) (c : ToolCall) :
    (h.runTool context c).Determined (o.Allows r) := by
  unfold runTool
  split
  · exact .ret _
  · refine (invoke_determined _ _ _).bind fun result => ?_
    cases result <;> exact .ret _

theorem runTools_determined (context : ToolContext) (calls : List ToolCall) :
    (h.runTools context calls).Determined (o.Allows r) := by
  induction calls with
  | nil => exact .ret _
  | cons c rest ih =>
      refine (runTool_determined context c).bind fun result => ?_
      cases result with
      | error e => exact .ret _
      | ok result => exact ih.bind fun _ => .ret _

theorem record_determined (a : Accountant) (delta : Tokens) (reason : String) :
    (a.record delta reason).Determined (o.Allows r) := by
  refine ⟨some (.ok ()), fun result hok => ?_⟩
  obtain ⟨usage, rfl⟩ := hok
  by_cases hbill : a.bills = true
  · simp only [Bind.bind, Prog.bind, RunProg.note, hbill, if_true]
    exact fun _ _ _ _ => rfl
  · simp only [Bind.bind, Prog.bind, RunProg.note, hbill]
    exact fun _ _ => rfl

theorem finishRound_determined (step : String) (response : ModelResponse)
    (messages : List Message) :
    (h.finishRound step response messages).Determined (o.Allows r) := by
  refine (record_determined _ _ _).bind fun result => ?_
  cases result with
  | error e => exact .ret _
  | ok _ => exact (note_determined _).bind fun _ => .ret _

theorem rounds_determined (hfind : r.find? name = some h) (step : String) (left : Nat)
    (history : List Message) (reply : AgentReply) :
    (h.rounds step left history reply).Determined (o.Allows r) := by
  induction left generalizing history reply with
  | zero => exact .ret _
  | succ left ih =>
      refine (complete_determined hfind history).bind fun result => ?_
      cases result with
      | error e => exact .ret _
      | ok response =>
          refine (runTools_determined _ _).bind fun ⟨results, failure⟩ => ?_
          refine (finishRound_determined _ _ _).bind fun finished => ?_
          cases finished with
          | error e => exact .ret _
          | ok _ =>
              cases failure with
              | some e => exact .ret _
              | none =>
                  dsimp only
                  split
                  · exact .ret _
                  · exact ih _ _

end AgentHandle

theorem callAgent_determined (c : Call) (message : Message) :
    (Execution.callAgent r c message).Determined (o.Allows r) := by
  unfold Execution.callAgent
  split
  · exact AgentHandle.rounds_determined ‹_› ..
  · exact .ret _

theorem call_determined (c : Call) (scope : Bindings) :
    (Execution.call r c scope).Determined (o.Allows r) := by
  refine (note_determined _).bind fun _ => ?_
  split
  · exact ⟨none, rfl⟩
  · refine (note_determined _).bind fun _ => (callAgent_determined c _).bind fun result => ?_
    cases result with
    | ok reply => exact (note_determined _).bind fun _ => (note_determined _).bind fun _ => .ret _
    | error e => exact (note_determined _).bind fun _ => .ret _

end Calls

/-! ## The interpreter -/

namespace Reference

/-- The reply of an agent, called alone. -/
def call (o : Oracle) (r : Registry) (c : Call) (scope : Bindings) :
    Option (Except FlowError StepOutcome) := (Execution.call r c scope).result o.reply

mutual

/-- What a step comes to when the steps below it run one after the other,
up to the first error: nothing if one crashes. -/
def step (o : Oracle) (r : Registry) : Step → Bindings → Option (Except FlowError StepOutcome)
  | .call c, scope => call o r c scope
  | .sequence name steps, scope => sequence o r name scope [] .null steps
  | .parallel name steps, scope => parallel o r name scope [] [] steps

/-- Each step sees what the ones before it have bound. -/
def sequence (o : Oracle) (r : Registry) (name : String) (scope produced : Bindings)
    (last : Json) : List Step → Option (Except FlowError StepOutcome)
  | [] => some (.ok { value := last, bindings := Table.insert name last produced })
  | s :: rest =>
    match step o r s scope with
    | some (.ok out) =>
      sequence o r name (Table.extend scope out.bindings) (Table.extend produced out.bindings)
        out.value rest
    | failure => failure

/-- Each step sees what the node sees; the values are listed in order. -/
def parallel (o : Oracle) (r : Registry) (name : String) (scope produced : Bindings)
    (values : List Json) : List Step → Option (Except FlowError StepOutcome)
  | [] =>
    some (.ok { value := .array values, bindings := Table.insert name (.array values) produced })
  | s :: rest =>
    match step o r s scope with
    | some (.ok out) =>
      parallel o r name scope (Table.extend produced out.bindings) (values ++ [out.value]) rest
    | failure => failure

end

end Reference

end Ensemble
