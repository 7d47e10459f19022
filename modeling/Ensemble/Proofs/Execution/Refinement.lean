import Ensemble.Proofs.Execution.Reference
import Ensemble.Proofs.Execution.Steps
import Mathlib.Data.List.Forall2

/-!
# Executions refine the reference interpreter

Whatever the order in which branches are dispatched, move and end, and
whatever is skipped or cancelled on the way, a step succeeds exactly if
the `Reference` interpreter says so, and then with the same outcome
(`step_matches`). The induction is on the tree. At a parallel node
either all branches have the outcomes of the reference, and then none
can fail, so none is left out; or one of them cannot succeed, and then
the verdict is an error.
-/

namespace Ensemble

namespace Execution

variable {o : Oracle} {r : Registry} {policy : FailurePolicy}

/-- All replies in a history agree with an oracle. -/
def Agrees (o : Oracle) (r : Registry) (h : History Act Act.Reply) : Prop :=
  ∀ x ∈ h, o.Allows r x.2.act x.2.reply

theorem Agrees.append_left {h h' : History Act Act.Reply} (ha : Agrees o r (h ++ h')) :
    Agrees o r h := fun x hx => ha x (List.mem_append_left _ hx)

theorem Agrees.append_right {h h' : History Act Act.Reply} (ha : Agrees o r (h ++ h')) :
    Agrees o r h' := fun x hx => ha x (List.mem_append_right _ hx)

theorem Agrees.below {h : History Act Act.Reply} (ha : Agrees o r h) (i : Nat) :
    Agrees o r (h.below i) := fun x hx => ha (i :: x.1, x.2) (History.mem_below.mp hx)

theorem Agrees.own {xs : List (Exchange Act Act.Reply)} (ha : Agrees o r (.own xs)) :
    ∀ x ∈ xs, o.Allows r x.act x.reply := fun x hx => ha ([], x) (List.mem_map_of_mem hx)

/-! ## The reference at a parallel node -/

/-- The reference succeeds at a parallel node if it does in all branches. -/
theorem reference_parallel_iff (name : String) (scope produced : Bindings) (values : List Json)
    (steps : List Step) (out : StepOutcome) :
    Reference.parallel o r name scope produced values steps = some (.ok out) ↔
      ∃ outs, List.Forall₂ (fun s out => Reference.step o r s scope = some (.ok out)) steps outs
        ∧ out = parallelOutcome name
            (outs.foldl (fun all out => Table.extend all out.bindings) produced)
            (values ++ outs.map StepOutcome.value) := by
  induction steps generalizing produced values with
  | nil =>
      rw [Reference.parallel]
      constructor
      · intro h
        refine ⟨[], .nil, ?_⟩
        simpa [parallelOutcome] using (Except.ok.inj (Option.some.inj h)).symm
      · rintro ⟨outs, hall, rfl⟩
        cases hall
        simp [parallelOutcome]
  | cons s rest ih =>
      rw [Reference.parallel]
      constructor
      · intro h
        split at h
        · rename_i first hfirst
          obtain ⟨outs, hall, rfl⟩ := (ih _ _).mp h
          exact ⟨first :: outs, .cons hfirst hall, by simp⟩
        · rename_i hno
          exact absurd h (hno out)
      · rintro ⟨outs, hall, rfl⟩
        cases hall with
        | cons hfirst hall =>
            rw [hfirst]
            exact (ih _ _).mpr ⟨_, hall, by simp⟩

/-- What is to be shown of a step: it succeeds as the reference does. -/
def Matches (o : Oracle) (r : Registry) (policy : FailurePolicy) (s : Step) : Prop :=
  ∀ scope h e, (step r s scope).Ends policy h e → Agrees o r h →
    ∀ out, e = .completed out ↔ Reference.step o r s scope = some (.ok out)

/-- A faulty ending is no success. -/
theorem not_completed_of_fault {e : Ending StepOutcome}
    (h : e.isFailed = true ∨ e.isCrashed = true) (out : StepOutcome) : e ≠ .completed out := by
  rintro rfl
  rcases h with h | h <;> cases h

section Parallel

variable {steps : List Step} {scope : Bindings} {h : History Act Act.Reply}
  {outcomes : List (BranchOutcome StepOutcome)}

/-- The branches of a joined node have ended as the reference says. -/
theorem branch_matches (hsteps : ∀ s ∈ steps, Matches o r policy s) (ha : Agrees o r h)
    {i : Nat} {script : RunScript StepOutcome} {e : Ending StepOutcome}
    (hi : (branches r scope steps)[i]? = some script) (he : script.Ends policy (h.below i) e)
    (out : StepOutcome) :
    ∃ s, steps[i]? = some s ∧
      (e = .completed out ↔ Reference.step o r s scope = some (.ok out)) := by
  obtain ⟨s, hs, rfl⟩ := exists_of_getElem?_branches hi
  exact ⟨s, hs, hsteps s (List.mem_of_getElem? hs) scope _ e he (ha.below i) out⟩

/-- The branches of a joined node have all completed with `outs` if and only
if the reference gives these outcomes. -/
theorem completed_iff_reference (hsteps : ∀ s ∈ steps, Matches o r policy s)
    (ha : Agrees o r h) (hj : Joined policy (branches r scope steps) h outcomes)
    (outs : List StepOutcome) :
    outcomes = outs.map .completed ↔
      List.Forall₂ (fun s out => Reference.step o r s scope = some (.ok out)) steps outs := by
  have hlen := joined_length hj
  have hscript : ∀ i (hi : i < steps.length),
      (branches r scope steps)[i]? = some (step r steps[i] scope) := fun i hi =>
    getElem?_branches (List.getElem?_eq_getElem hi)
  rw [List.forall₂_iff_get]
  constructor
  · rintro rfl
    rw [List.length_map] at hlen
    refine ⟨hlen.symm, fun i hi hi' => ?_⟩
    rcases hj.outcome i _ _ (hscript i hi) (List.getElem?_eq_getElem (by simpa using hi')) with
      ⟨e, he, ho⟩ | ⟨ho, -⟩ | ⟨ho, -⟩
    · obtain ⟨s, hs, hiff⟩ := branch_matches hsteps ha (hscript i hi) he outs[i]
      obtain rfl := Option.some.inj ((List.getElem?_eq_getElem hi).symm.trans hs)
      refine hiff.mp ?_
      cases e <;> simp_all [Ending.outcome]
    · simp at ho
    · simp at ho
  · rintro ⟨hlen', hall⟩
    -- no branch of the node can be at fault, so none is missing
    have hends : ∀ i script e, (branches r scope steps)[i]? = some script →
        script.Ends policy (h.below i) e → ∃ hi : i < outs.length, e = .completed outs[i] := by
      intro i script e hi he
      have hlt : i < steps.length := by
        obtain ⟨s, hs, -⟩ := exists_of_getElem?_branches hi
        exact (List.getElem?_eq_some_iff.mp hs).1
      have hlt' : i < outs.length := hlen' ▸ hlt
      obtain ⟨s, hs, hiff⟩ := branch_matches hsteps ha hi he outs[i]
      obtain rfl := Option.some.inj ((List.getElem?_eq_getElem hlt).symm.trans hs)
      exact ⟨hlt', hiff.mpr (hall i hlt hlt')⟩
    have hnone : ¬(.skipped ∈ outcomes ∨ .cancelled ∈ outcomes) := by
      intro hmissing
      obtain ⟨i, script, e, hi, he, hfault, -⟩ := hj.fault hmissing
      obtain ⟨_, hout⟩ := hends i script e hi he
      exact not_completed_of_fault hfault _ hout
    refine List.ext_getElem (by simp [hlen, hlen']) fun i hi hi' => ?_
    have hlt : i < steps.length := hlen ▸ hi
    rcases hj.outcome i _ _ (hscript i hlt) (List.getElem?_eq_getElem hi) with
      ⟨e, he, ho⟩ | ⟨ho, -⟩ | ⟨ho, -⟩
    · obtain ⟨_, rfl⟩ := hends i _ e (hscript i hlt) he
      simpa [Ending.outcome] using ho
    · exact absurd (Or.inl (ho ▸ List.getElem_mem hi)) hnone
    · exact absurd (Or.inr (ho ▸ List.getElem_mem hi)) hnone

end Parallel

/-! ## All steps -/

theorem call_matches (c : Call) : Matches o r policy (.call c) := by
  intro scope h e he ha out
  rw [step] at he
  have hcall : ∀ xs result, (call r c scope).Ends xs result → Agrees o r (.own xs) →
      result = Reference.call o r c scope := fun xs result hends hown =>
    (call_determined c scope).ends (o.allows_reply r) hends hown.own
  rw [Reference.step]
  rcases Script.ends_prog he with ⟨xs, hcrash, rfl, rfl⟩ | ⟨xs, result, later, hend, rfl, hret⟩
  · rw [← hcall xs none hcrash ha]
    simp
  · obtain ⟨rfl, rfl⟩ := Script.ends_ret hret
    rw [← hcall xs (some result) hend ha.append_left, ofResult_eq_completed, Option.some.injEq]

/-- The reference stops at the first step without a success. -/
theorem reference_sequence_stops {s : Step} {rest : List Step} {name : String}
    {scope produced : Bindings} {last : Json}
    (hno : ∀ first, Reference.step o r s scope ≠ some (.ok first)) (out : StepOutcome) :
    Reference.sequence o r name scope produced last (s :: rest) ≠ some (.ok out) := by
  rw [Reference.sequence]
  split
  · rename_i first hok
    exact absurd hok (hno first)
  · rename_i hnot
    exact hnot out

theorem sequence_matches {steps : List Step} (hsteps : ∀ s ∈ steps, Matches o r policy s)
    (name : String) (scope produced : Bindings) (last : Json) {h : History Act Act.Reply}
    {e : Ending StepOutcome} (he : (sequence r name scope produced last steps).Ends policy h e)
    (ha : Agrees o r h) (out : StepOutcome) :
    e = .completed out ↔
      Reference.sequence o r name scope produced last steps = some (.ok out) := by
  induction steps generalizing scope produced last h with
  | nil =>
      rw [sequence] at he
      obtain ⟨-, rfl⟩ := Script.ends_ret he
      rw [ofResult_eq_completed, Reference.sequence, Option.some.injEq]
      rfl
  | cons s rest ih =>
      have hfirst := hsteps s (List.mem_cons_self ..)
      rcases ends_sequence he with ⟨hcrash, rfl⟩ | ⟨before, later, rfl, hnext⟩
      · have hno := hfirst scope h .crashed hcrash ha
        exact iff_of_false (by simp) (reference_sequence_stops (fun first hok =>
          absurd ((hno first).mpr hok) (by simp)) out)
      rcases hnext with ⟨err, hfail, -, rfl⟩ | ⟨first, hok, hrest⟩
      · have hno := hfirst scope before _ hfail ha.append_left
        exact iff_of_false (by simp) (reference_sequence_stops (fun first hok =>
          absurd ((hno first).mpr hok) (by simp)) out)
      · rw [Reference.sequence]
        rw [(hfirst scope before _ hok ha.append_left first).mp rfl]
        exact ih (fun t ht => hsteps t (List.mem_cons_of_mem _ ht)) _ _ _ hrest ha.append_right

theorem parallel_matches {steps : List Step} (hsteps : ∀ s ∈ steps, Matches o r policy s)
    (name : String) : Matches o r policy (.parallel name steps) := by
  intro scope h e he ha out
  rw [Reference.step, reference_parallel_iff]
  obtain ⟨before, later, outcomes, rfl, hj, -, rfl⟩ := ends_parallel he
  have hiff := completed_iff_reference hsteps ha.append_left hj
  rw [ofResult_eq_completed]
  constructor
  · intro hok
    obtain ⟨outs, rfl, rfl⟩ := verdict_eq_ok hj hok
    exact ⟨outs, (hiff outs).mp rfl, rfl⟩
  · rintro ⟨outs, hall, rfl⟩
    obtain rfl := (hiff outs).mpr hall
    exact verdict_completed name (by rw [List.length_map]; exact hall.length_eq)

theorem step_matches (s : Step) : Matches o r policy s := by
  induction s with
  | call c => exact call_matches c
  | sequence name steps ih =>
      intro scope h e he ha out
      rw [step] at he
      rw [Reference.step]
      exact sequence_matches ih name _ _ _ he ha out
  | parallel name steps ih => exact parallel_matches ih name

/-- In a world whose replies are all allowed, those of a run are. -/
theorem agrees_of_run {W : Type} {config : FanoutConfig}
    {perform : (a : Act) → W → a.Reply × W} {drift : W → W → Prop}
    {p₀ p : Process Act Act.Reply StepOutcome} {w₀ w : W} {h : History Act Act.Reply}
    (hok : ∀ a w, o.Allows r a (perform a w).1)
    (hrun : Process.Run config perform drift p₀ w₀ h p w) : Agrees o r h := by
  refine hrun.along (fun h _ => Agrees o r h) ?_ (fun _ _ _ ha _ => ha) ?_
  · intro x hx
    cases hx
  · intro h w task a ha x hx
    rcases List.mem_append.mp hx with hx | hx
    · exact ha x hx
    · obtain rfl := List.mem_singleton.mp hx
      exact hok a w

/-- **Executions refine the reference interpreter.** No schedule of a step
goes on for ever or gets stuck, and as long as models and tools answer as
the oracle does, every schedule that has come to its end has succeeded if
and only if the reference succeeds, and with the same outcome. -/
theorem execution_refines_reference {W : Type} (config : FanoutConfig)
    (perform : (a : Act) → W → a.Reply × W) (drift : W → W → Prop) (o : Oracle) (r : Registry)
    (root : Step) (scope : Bindings) :
    Acc (fun (p' p : Process Act Act.Reply StepOutcome) =>
          ∃ path m w w', p.move? config perform path m w = some (p', w'))
        (.line (step r root scope)) ∧
      ∀ w₀ h p w, Process.Run config perform drift (.line (step r root scope)) w₀ h p w →
        (p.ending? = none → p.CanMove config perform w) ∧
          (Agrees o r h → ∀ e, p.ending? = some e → ∀ out,
            e = .completed out ↔ Reference.step o r root scope = some (.ok out)) := by
  refine ⟨?_, fun w₀ h p w hrun => ⟨hrun.reaches.can_move, fun ha e he out => ?_⟩⟩
  · refine Subrelation.accessible ?_ (Script.acc_next config (step r root scope))
    rintro p' p ⟨path, m, w, w', hm⟩
    exact ⟨_, Process.moves_of_move? hm⟩
  · exact step_matches root scope h e ⟨p, hrun.reaches, he⟩ ha out

/-! ## Two branches, backwards -/

/-- Models that repeat their instructions, and no tools. -/
def echo : Oracle :=
  { model := fun request => .answered
      { text := request.system, toolCalls := [], usage := .zero, finishReason := "stop" }
    tool := fun tool _ _ => .error (.notFound tool.spec.name) }

/-- Two agents that can be told apart. -/
def pair : Registry :=
  let handle (name : String) : AgentHandle :=
    { name, model := "echo", system := s!"I am {name}.", tools := []
      context := { agentId := "", sessionId := "", agentName := name, step := "" }
      accountant := { event := "", session := "", agent := name, bills := false }
      maxSteps := 1, timeout := some 1000 }
  { handles := [("first", handle "first"), ("second", handle "second")] }

/-- A parallel node with a branch for each agent of the pair. -/
def both : Step :=
  let call (name : String) : Step :=
    .call { name, agent := name, message := { role := .user, content := [] }, slots := [] }
  .parallel "both" [call "first", call "second"]

/-- The second branch is dispatched, run, and joined before the first one starts. -/
def backwards : List (List Nat × Move) :=
  let branch (i : Nat) : List (List Nat × Move) :=
    ([], .dispatch i) :: List.replicate 9 ([i], .act) ++ [([], .finish i), ([], .join i)]
  ([], .fork) :: branch 1 ++ branch 0 ++ [([], .collect)]

/-- With one permit the branches run in the wrong order; the values are listed
in the right one. -/
theorem execution_refines_reference_both :
    Reference.step echo pair both [] = some (.ok (parallelOutcome "both"
      [("first", .string "I am first."), ("second", .string "I am second.")]
      [.string "I am first.", .string "I am second."])) := by
  let config : FanoutConfig := { maxConcurrency := some 0, failure := .cancelSiblings }
  let perform : (a : Act) → Unit → a.Reply × Unit := fun a w => (echo.reply a, w)
  let ending : Option (Ending StepOutcome) :=
    (Process.play? config perform backwards (.line (step pair both [])) ()).bind (·.2.1.ending?)
  have hending : ending = some (.completed (parallelOutcome "both"
      [("first", .string "I am first."), ("second", .string "I am second.")]
      [.string "I am first.", .string "I am second."])) := rfl
  obtain ⟨⟨h, p, w⟩, hplay, hend⟩ := Option.bind_eq_some_iff.mp hending
  have hrun : Process.Run config perform Eq (.line (step pair both [])) () h p w :=
    Process.Run.start.play hplay
  have hagrees : Agrees echo pair h := agrees_of_run (fun a _ => echo.allows_reply pair a) hrun
  have hverdict := (execution_refines_reference config perform Eq echo pair both []).2 () h p w hrun
  exact (hverdict.2 hagrees _ hend _).mp rfl

end Execution

end Ensemble
