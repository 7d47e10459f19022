import Ensemble.Proofs.Compile.Slots
import Ensemble.Proofs.Execution.Calls
import Ensemble.Proofs.Process.Crashing

/-!
# Steps crash with their models only

A call could crash while its message is bound, but the calls of compiled
plans are bound whatever was answered before (`Compile.compiled_binds`).
What is left is a model that crashes while it is waited for: no other reply
makes a step crash (`step_robust`), and a crash in a branch of a parallel
node only ends that branch.
-/

namespace Ensemble

/-- The replies that make a task crash. -/
def Act.IsFault : (a : Act) → a.Reply → Prop
  | .send _, pending => PendingModel.outcome pending = .crashed
  | _, _ => False

namespace AgentHandle

variable {h : AgentHandle} {step : String}

theorem await_robust {pending : PendingModel} {request : ModelRequest}
    (hpending : ¬Act.IsFault (.send request) pending) : (h.await pending).Robust Act.IsFault := by
  unfold await
  split
  · trivial
  · cases houtcome : pending.outcome with
    | answered response => trivial
    | failed e => trivial
    | crashed => exact hpending houtcome

theorem record_safe (a : Accountant) (delta : Tokens) (reason : String) :
    (a.record delta reason).Safe := by
  intro reply
  change Except String SessionUsage at reply
  cases reply with
  | error message => trivial
  | ok usage =>
      intro _
      change Prog.Safe (if a.bills then _ else _)
      split
      · exact fun _ => trivial
      · trivial

theorem finishRound_safe (h : AgentHandle) (step : String) (answer : ModelResponse)
    (messages : List Message) : (h.finishRound step answer messages).Safe := by
  refine (record_safe h.accountant _ _).bind fun result => ?_
  cases result with
  | error message => trivial
  | ok _ => exact fun _ => trivial

/-- Of all that a conversation does only waiting for its model can crash. -/
theorem rounds_robust (h : AgentHandle) (step : String) (left : Nat) (history : List Message)
    (reply : AgentReply) : (h.rounds step left history reply).Robust Act.IsFault := by
  induction left generalizing history reply with
  | zero => trivial
  | succ left ih =>
      intro pending hpending
      refine (await_robust hpending).bind fun result => ?_
      cases result with
      | error e => trivial
      | ok answer =>
          refine (runTools_safe _ _).robust.bind fun ⟨results, failure⟩ => ?_
          refine (finishRound_safe h step answer _).robust.bind fun finished => ?_
          cases finished with
          | error e => trivial
          | ok _ =>
              cases failure with
              | some e => trivial
              | none =>
                  change Prog.Robust Act.IsFault (if answer.toolCalls.isEmpty then _ else _)
                  split
                  · trivial
                  · exact ih _ _

end AgentHandle

namespace Execution

variable {r : Registry} {c : Call} {scope : Bindings}

theorem call_robust (hbinds : ∀ lookup, (c.bind? lookup).isSome = true) (scope : Bindings) :
    (call r c scope).Robust Act.IsFault := by
  obtain ⟨m, hbind⟩ := Option.isSome_iff_exists.mp (hbinds (textOf scope))
  rw [call_bound hbind]
  refine fun _ _ _ _ => Prog.Robust.bind ?_ fun answer => ?_
  · unfold callAgent
    split
    · exact AgentHandle.rounds_robust ..
    · trivial
  · cases answer with
    | ok reply => exact fun _ _ _ _ => trivial
    | error e => exact fun _ _ => trivial

theorem skipAll_ret_robust (names : List String) (result : Except FlowError StepOutcome) :
    ((skipAll names).andThen fun () => Script.ret result).Robust Act.IsFault := by
  have hsafe : ∀ names : List String, (skipAll names).Safe := by
    intro names
    induction names with
    | nil => trivial
    | cons name rest ih => exact fun _ => ih
  exact Script.robust_andThen_prog (hsafe names).robust fun _ => .ret result

theorem sequence_robust {steps : List Step}
    (hsteps : ∀ s ∈ steps, ∀ scope, (step r s scope).Robust Act.IsFault) (name : String)
    (scope produced : Bindings) (last : Json) :
    (sequence r name scope produced last steps).Robust Act.IsFault := by
  induction steps generalizing scope produced last with
  | nil =>
      rw [sequence]
      exact .ret _
  | cons s rest ih =>
      rw [sequence]
      refine (hsteps s (List.mem_cons_self ..) scope).andThen fun result => ?_
      cases result with
      | ok first => exact ih (fun t ht => hsteps t (List.mem_cons_of_mem _ ht)) _ _ _
      | error e => exact skipAll_ret_robust _ _

/-- A step of which all calls can be bound. -/
theorem step_robust (s : Step) (hbinds : ∀ c ∈ s.calls, ∀ lookup, (c.bind? lookup).isSome = true)
    (scope : Bindings) : (step r s scope).Robust Act.IsFault := by
  induction s generalizing scope with
  | call c =>
      rw [step]
      exact Script.robust_andThen_prog (call_robust (hbinds c (List.mem_singleton_self c)) scope)
        fun _ => .ret _
  | sequence name steps ih =>
      rw [step]
      refine sequence_robust (fun s hs => ih s hs fun c hc => hbinds c ?_) name scope [] .null
      rw [Step.calls_sequence]
      exact List.mem_flatMap.mpr ⟨s, hs, hc⟩
  | parallel name steps ih =>
      rw [step]
      exact .fork _ fun outcomes => skipAll_ret_robust _ _

end Execution

namespace Compile

variable {master : MasterAgent} {key : Option String} {inputs : ResolvedInputs}
  {injectsAll : Bool} {plan : Plan}

/-- Every call of a compiled plan can be bound, whatever is asked for. -/
theorem compiled_binds (hplan : compile master key inputs injectsAll = .ok plan) :
    ∀ c ∈ plan.root.calls, ∀ lookup, (c.bind? lookup).isSome = true := by
  obtain ⟨f, hflow, -⟩ := compile_eq_ok hplan
  have hsound := compiled_sound hflow hplan
  intro c hc lookup
  obtain ⟨i, hi, rfl⟩ := List.getElem_of_mem hc
  obtain ⟨content, hbind, -⟩ := (hsound.get (hsound.length_eq ▸ hi) hi).binds lookup
  exact Option.isSome_of_mem hbind

end Compile

end Ensemble
