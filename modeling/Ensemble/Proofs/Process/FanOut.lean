import Ensemble.Proofs.Process.Passing

/-!
# Verdicts of a fan

What a fork tells its node once all branches are joined, for every order
in which the branches are dispatched, run, end, are dropped and are joined
(`FanVerdict`, `fan_verdict`). A branch is only skipped or cancelled for a
reason that the run has passed, so both are followed back to it
(`Run.passes_of_skipped`, `Run.passes_of_cancelled`); what a branch was or
has ended with is followed on to the outcomes (`Passes.outcome`).
-/

namespace Ensemble

variable {A : Type} {R : A → Type} {β W : Type}

/-! ## Runs of a fork -/

section Runs

open Process

variable {config : FanoutConfig} {perform : (a : A) → W → R a × W} {drift : W → W → Prop}
  {scripts : List (Script A R β)} {next next' : List (BranchOutcome β) → Script A R β}
  {w₀ w v : W} {h h' : History A R} {f f' : Fan (Process A R β) (Script A R β) β}
  {q : Process A R β}

/-- As long as what follows the fork does not fork, all fans are its fan. -/
theorem Process.Run.fan_eq (hnext : ∀ outcomes, (next outcomes).Straight)
    (hrun : Run config perform drift (.line (.fork scripts next)) w₀ h (.fan f next') w) :
    next' = next ∧ ∃ fates, f.Stands config.failure scripts fates h ∧
      ∀ i script p, scripts[i]? = some script → (fates i).process? = some p →
        script.Reaches config.failure (h.below i) p := by
  cases hrun.reaches with
  | fork stands runs => exact ⟨rfl, _, stands, runs⟩
  | collect _ _ _ rest =>
      obtain ⟨t, ht, -⟩ := (hnext _).reaches rest
      cases ht

/-- What each move keeps of a branch holds of it in all later fans. -/
theorem Process.Run.keeps_branch {P : Branch (Process A R β) (Script A R β) β → Prop}
    (hP : ∀ failed b b', Branch.Goes config failed b b' → P b → P b')
    (hnext : ∀ outcomes, (next outcomes).Straight)
    (hrun : Run config perform drift (.fan f next) v h (.fan f' next') w) {i : Nat}
    {b : Branch (Process A R β) (Script A R β) β} (hi : f.branches[i]? = some b) (hb : P b) :
    ∃ b', f'.branches[i]? = some b' ∧ P b' := by
  -- a process is the fan, in which the branch has the property, or follows it
  let Inv (q : Process A R β) : Prop :=
    (∃ f b, q = .fan f next ∧ f.branches[i]? = some b ∧ P b) ∨ ∃ s, q = .line s ∧ s.Straight
  have hinv : Inv (.fan f' next') := by
    refine hrun.keeps (P := Inv) ?_ (.inl ⟨f, b, rfl, hi, hb⟩)
    rintro q h q' hm (⟨g, c, rfl, hc, hPc⟩ | ⟨s, rfl, hs⟩)
    · rcases Fan.goes_of_moves hm with ⟨g', rfl, hgo⟩ | ⟨outcomes, -, rfl, -⟩
      · have hrel := hgo i
        rw [hc] at hrel
        generalize hc' : g'.branches[i]? = o at hrel
        cases hrel with
        | some hgo => exact .inl ⟨g', _, rfl, hc', hP _ _ _ hgo hPc⟩
      · exact .inr ⟨_, rfl, hnext outcomes⟩
    · exact .inr (hs.moves hm)
  rcases hinv with ⟨g, c, heq, hc, hPc⟩ | ⟨s, heq, -⟩
  · obtain ⟨rfl, -⟩ := Process.fan.inj heq
    exact ⟨c, hc, hPc⟩
  · cases heq

variable {outcomes : List (BranchOutcome β)}

/-- What every later fan shows of a branch that a run has passed, the outcomes show. -/
theorem Process.Passes.outcome {P : Branch (Process A R β) (Script A R β) β → Prop}
    (hP : ∀ failed b b', Branch.Goes config failed b b' → P b → P b')
    (hnext : ∀ outcomes, (next outcomes).Straight) {i : Nat}
    (hpass : Passes config perform drift (.line (.fork scripts next)) w₀
      (fun q => ∃ b, q.branch? i = some b ∧ P b) h (.fan f next') w)
    (hknown : f.outcomes? = some outcomes) : ∃ o, outcomes[i]? = some o ∧ P (.joined o) := by
  obtain ⟨h₁, h₂, q, v, -, hfirst, ⟨b, hi, hb⟩, hrest⟩ := hpass
  cases q with
  | line s => cases hi
  | fan g next'' =>
      obtain ⟨rfl, -⟩ := hfirst.fan_eq hnext
      obtain ⟨b', hi', hb'⟩ := hrest.keeps_branch hP hnext hi hb
      rw [Fan.outcomes?_eq_some hknown, List.getElem?_map] at hi'
      obtain ⟨o, ho, rfl⟩ := Option.map_eq_some_iff.mp hi'
      exact ⟨o, ho, hb'⟩

/-- How a branch has ended is its outcome. -/
theorem Process.Passes.reported (hnext : ∀ outcomes, (next outcomes).Straight) {i : Nat}
    {e : Ending β}
    (hpass : Passes config perform drift (.line (.fork scripts next)) w₀
      (fun q => q.branch? i = some (.ended e)) h (.fan f next') w)
    (hknown : f.outcomes? = some outcomes) : outcomes[i]? = some e.outcome := by
  obtain ⟨h₁, h₂, q, v, heq, hfirst, hi, hrest⟩ := hpass
  obtain ⟨o, ho, hb⟩ := Passes.outcome (P := fun b => b = .ended e ∨ b = .joined e.outcome)
    (fun _ _ _ hgo hb => hgo.of_ended hb) hnext
    ⟨h₁, h₂, q, v, heq, hfirst, ⟨_, hi, .inl rfl⟩, hrest⟩ hknown
  rcases hb with hb | hb
  · cases hb
  · rw [ho, Branch.joined.inj hb]

end Runs

end Ensemble
