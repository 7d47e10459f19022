import Ensemble.Proofs.Execution.Calls
import Ensemble.Proofs.Plan.Tree
import Ensemble.Proofs.Usage.Accounts

/-!
# The accounts of steps

If no branch is dropped on its way, all tasks of a step that has ended have
settled all answers (`step_settles`), however the step has ended: a round
of a conversation leaves nothing open when a model, a tool or the session
fails, and steps that are left out have done nothing.
-/

namespace Ensemble

/-! ## Conversations -/

namespace AgentHandle

variable {h : AgentHandle} {step : String} {history : List Message} {pending : PendingModel}
  {answer : Option (Except CallError ModelResponse)}

/-- The answers that come in time are those that a call goes on with. -/
theorem inTime?_eq (h : AgentHandle) (pending : PendingModel) :
    pending.inTime? h.timeout = (h.awaited pending).bind Except.toOption := by
  unfold PendingModel.inTime? awaited
  cases htimeout : h.timeout with
  | none => cases pending.outcome <;> rfl
  | some limit =>
      by_cases hlate : limit < pending.delay
      · simp [Option.filter, hlate, Nat.not_le.mpr hlate, Except.toOption]
      · have hle : pending.delay ≤ limit := Nat.not_lt.mp hlate
        simp only [Option.all_some, hle, decide_true, ↓reduceIte, Option.filter, hlate]
        cases pending.outcome <;> rfl

theorem inTime?_of_awaited (hanswer : h.awaited pending = answer) :
    pending.inTime? h.timeout = answer.bind Except.toOption := by
  rw [inTime?_eq, hanswer]

theorem Uses.isFree {r : ModelResponse} {uses : List (Exchange Act Act.Reply)}
    {results : List Part} {failure : Option CallError}
    (hu : h.Uses step r uses results failure) : ∀ x ∈ uses, x.act.IsFree :=
  fun x hx => (hu.isUse x hx).isFree

/-- A round that is put on record settles its answer, even if a tool has
failed in it. -/
theorem round_settles {r : ModelResponse} {uses : List (Exchange Act Act.Reply)}
    {results : List Part} {failure : Option CallError} {usage : SessionUsage}
    (hanswer : h.awaited pending = some (.ok r)) (hu : h.Uses step r uses results failure)
    (honest : ∀ x ∈ h.settled step r results usage, x.Honest) :
    Settles h.accountant h.timeout
      (⟨.send (h.request history), pending⟩ :: (uses ++ h.settled step r results usage)) := by
  have hdelta : usage.delta = r.usage :=
    honest ⟨.recordSession h.accountant.session h.accountant.agent r.usage, .ok usage⟩
      (List.mem_append_left _ (List.mem_cons_self ..))
  exact (Settles.round (inTime?_of_awaited hanswer) hdelta).insert [_] hu.isFree

/-- A conversation settles all its answers, however it ends. -/
theorem Conversation.settles {left : Nat} {reply : AgentReply}
    {xs : List (Exchange Act Act.Reply)} {out : Option (Except CallError AgentReply)}
    (hc : h.Conversation step left history reply xs out) (honest : ∀ x ∈ xs, x.Honest) :
    Settles h.accountant h.timeout xs := by
  induction hc with
  | spent history reply => exact .nil
  | unanswered late => exact .unanswered (inTime?_of_awaited late)
  | crashed crash => exact .unanswered (inTime?_of_awaited crash)
  | refused answer used =>
      exact (Settles.refused (inTime?_of_awaited answer) _).insert [_] used.isFree
  | failed answer used =>
      exact round_settles answer used fun x hx =>
        honest x (List.mem_cons_of_mem _ (List.mem_append_right _ hx))
  | last answer used =>
      exact round_settles answer used fun x hx =>
        honest x (List.mem_cons_of_mem _ (List.mem_append_right _ hx))
  | @again left history reply pending r uses rest results usage out answer used asks more ih =>
      have hround : Settles h.accountant h.timeout
          (⟨.send (h.request history), pending⟩ :: (uses ++ h.settled step r results usage)) :=
        round_settles answer used fun x hx =>
          honest x (List.mem_cons_of_mem _ (List.mem_append_left _ (List.mem_append_right _ hx)))
      have hmore := ih fun x hx =>
        honest x (List.mem_cons_of_mem _ (List.mem_append_right _ hx))
      exact hround.append hmore

end AgentHandle

namespace Execution

variable {r : Registry} {a : Accountant} {limit : Option Nat}

/-! ## Histories -/

/-- All agents write to one account and wait for answers up to one limit. -/
def Shares (r : Registry) (a : Accountant) (limit : Option Nat) : Prop :=
  ∀ name h, r.find? name = some h → h.accountant = a ∧ h.timeout = limit

/-- All tasks of a history have settled their answers. -/
def AllSettle (a : Accountant) (limit : Option Nat) (h : History Act Act.Reply) : Prop :=
  ∀ task, Settles a limit (h.of task)

namespace AllSettle

variable {h h' : History Act Act.Reply}

theorem nil : AllSettle a limit [] := fun _ => .nil

theorem append (hh : AllSettle a limit h) (hh' : AllSettle a limit h') :
    AllSettle a limit (h ++ h') := by
  intro task
  rw [History.of_append]
  exact (hh task).append (hh' task)

theorem own {xs : List (Exchange Act Act.Reply)} (hxs : Settles a limit xs) :
    AllSettle a limit (.own xs) := by
  intro task
  cases task with
  | nil => rwa [History.of_own_root]
  | cons i path =>
      rw [History.of_own_branch]
      exact .nil

theorem of_free (hfree : ∀ x ∈ h, x.2.act.IsFree) : AllSettle a limit h := fun _ =>
  .of_free fun _ hx => hfree _ (History.mem_of.mp hx)

theorem of_skips (hskips : ∀ x ∈ h, x.2.act.IsSkip) : AllSettle a limit h := by
  refine of_free fun x hx => ?_
  have hskip := hskips x hx
  cases hact : x.2.act <;> first | trivial | (rw [hact] at hskip; exact hskip.elim)

/-- A history of branches is settled if all its branches are. -/
theorem of_branches {n : Nat} (hwithin : h.Within n)
    (hbranch : ∀ i < n, AllSettle a limit (h.below i)) : AllSettle a limit h := by
  intro task
  cases task with
  | nil =>
      rw [hwithin.of_root]
      exact .nil
  | cons i path =>
      by_cases hi : i < n
      · rw [← History.of_below]
        exact hbranch i hi path
      · refine .of_free fun x hx => ?_
        obtain ⟨j, hj, path', hpath⟩ := hwithin _ (History.mem_of.mp hx)
        obtain ⟨rfl, -⟩ := List.cons.inj hpath
        exact absurd hj hi

end AllSettle

/-! ## Steps -/

/-- A call settles the answers of its conversation. -/
theorem call_settles (hshares : Shares r a limit) {c : Call} {scope : Bindings}
    {xs : List (Exchange Act Act.Reply)} {out : Option (Except FlowError StepOutcome)}
    (hp : (call r c scope).Ends xs out) (honest : ∀ x ∈ xs, x.Honest) : Settles a limit xs := by
  rcases ends_call hp with ⟨-, rfl, -⟩ | ⟨m, ys, zs, answer, -, rfl, hagent, hconcludes⟩
  · exact .of_free (by simp [Act.IsFree])
  have hopening : Settles a limit (opening c m) := .of_free (by simp [opening, Act.IsFree])
  have hconclusion : Settles a limit zs := by
    rcases answer with - | e | reply
    · obtain ⟨rfl, -⟩ := hconcludes
      exact .nil
    · obtain ⟨rfl, -⟩ := hconcludes
      exact .of_free (by simp [Act.IsFree])
    · obtain ⟨rfl, -⟩ := hconcludes
      exact .of_free (by simp [Act.IsFree])
  refine hopening.append (Settles.append ?_ hconclusion)
  rcases ends_callAgent hagent with ⟨h, hfind, hconversation⟩ | ⟨-, rfl, -⟩
  · obtain ⟨rfl, rfl⟩ := hshares _ h hfind
    exact hconversation.settles fun x hx =>
      honest x (List.mem_append_right _ (List.mem_append_left _ hx))
  · exact .nil

/-- What is to be shown of a step: however it ends, all its tasks have
settled their answers. -/
def StepSettles (r : Registry) (a : Accountant) (limit : Option Nat) (s : Step) : Prop :=
  ∀ scope h e, (step r s scope).Ends .completeInFlight h e → (∀ x ∈ h, x.2.Honest) →
    AllSettle a limit h

theorem sequence_settles {steps : List Step} (hsteps : ∀ s ∈ steps, StepSettles r a limit s)
    {name : String} {scope produced : Bindings} {last : Json} {h : History Act Act.Reply}
    {e : Ending StepOutcome}
    (he : (sequence r name scope produced last steps).Ends .completeInFlight h e)
    (honest : ∀ x ∈ h, x.2.Honest) : AllSettle a limit h := by
  induction steps generalizing scope produced last h with
  | nil =>
      rw [sequence] at he
      obtain ⟨rfl, -⟩ := Script.ends_ret he
      exact .nil
  | cons s rest ih =>
      have hs := hsteps s (List.mem_cons_self ..) scope
      rcases ends_sequence he with ⟨hcrash, -⟩ | ⟨before, later, rfl, hnext⟩
      · exact hs h _ hcrash honest
      have hbefore := fun x hx => honest x (List.mem_append_left later hx)
      have hlater := fun x hx => honest x (List.mem_append_right before hx)
      rcases hnext with ⟨err, hfail, hskips, -⟩ | ⟨first, hfirst, hrest⟩
      · exact (hs before _ hfail hbefore).append (.of_skips hskips)
      · exact (hs before _ hfirst hbefore).append
          (ih (fun t ht => hsteps t (List.mem_cons_of_mem _ ht)) hrest hlater)

theorem parallel_settles {steps : List Step} (hsteps : ∀ s ∈ steps, StepSettles r a limit s)
    (name : String) : StepSettles r a limit (.parallel name steps) := by
  intro scope h e he honest
  obtain ⟨before, later, outcomes, rfl, hj, hskips, -⟩ := ends_parallel he
  refine AllSettle.append (.of_branches (joined_within hj) fun i hi => ?_) (.of_skips hskips)
  -- a branch that was dispatched has come to its own end: none is dropped
  obtain ⟨o, -, ⟨ending, hends, -⟩ | ⟨-, hnone⟩ | ⟨-, hpolicy⟩⟩ :=
    joined_outcome hj (List.getElem?_eq_getElem hi)
  · exact hsteps _ (List.getElem_mem hi) scope _ ending hends fun x hx =>
      honest (i :: x.1, x.2) (List.mem_append_left later (History.mem_below.mp hx))
  · rw [hnone]
    exact .nil
  · cases hpolicy

/-- All tasks of a step that has ended have settled their answers. -/
theorem step_settles (hshares : Shares r a limit) (s : Step) : StepSettles r a limit s := by
  induction s with
  | call c =>
      intro scope h e he honest
      rw [step] at he
      have hxs : ∀ {xs : List (Exchange Act Act.Reply)}, h = .own xs → ∀ x ∈ xs, x.Honest :=
        fun hown x hx => honest ([], x) (hown ▸ List.mem_map_of_mem hx)
      rcases Script.ends_prog he with ⟨xs, hcrash, rfl, -⟩ | ⟨xs, result, later, hcall, rfl, hret⟩
      · exact .own (call_settles hshares hcrash (hxs rfl))
      · obtain ⟨rfl, -⟩ := Script.ends_ret hret
        rw [List.append_nil] at hxs ⊢
        exact .own (call_settles hshares hcall (hxs rfl))
  | sequence name steps ih =>
      intro scope h e he honest
      rw [step] at he
      exact sequence_settles ih he honest
  | parallel name steps ih => exact parallel_settles ih name

end Execution

end Ensemble
