import Ensemble.Proofs.Execution.Verdict
import Ensemble.Proofs.Process.Permits

/-!
# A limit on parallel branches

The executor runs every parallel node of a tree under the same limit, and
the nodes share nothing but its number. `permits_never_lock` says of every
run of every tree that the limit is kept at each node and that it holds
nothing up for good, a limit of one included.
-/

namespace Ensemble.Execution

/-- **A limit without deadlock.** Whatever a run of a step has led to: no
parallel node has more branches between their dispatch and their end than
it has permits, and something can be done unless the step has ended. A
branch that waits can be dispatched, or the permits of its own node are all
held by siblings that can end or move; and as nothing goes on for ever, it
does not wait for ever. -/
theorem permits_never_lock {W : Type} (config : FanoutConfig)
    (perform : (a : Act) → W → a.Reply × W) (drift : W → W → Prop) (r : Registry) (root : Step)
    (scope : Bindings) (w₀ : W) (h : History Act Act.Reply)
    (p : Process Act Act.Reply StepOutcome) (w : W)
    (hrun : Process.Run config perform drift (.line (step r root scope)) w₀ h p w) :
    p.WithinLimit config.maxConcurrency ∧
      (p.ending? = none → p.CanMove config perform w) ∧
      (∀ path f next (i : Nat) script, p.at? path = some (.fan f next) →
        f.branches[i]? = some (.waiting script) →
        (p.move? config perform path (.dispatch i) w).isSome = true ∨
          f.Awaits config perform path p w) ∧
      Acc (Process.Next config) p := by
  have hlimit := hrun.withinLimit (Process.withinLimit_line _)
  refine ⟨hlimit, hrun.reaches.can_move, fun path f next i script hat hi => ?_, hrun.acc⟩
  exact hrun.reaches.dispatches hlimit hat hi

/-! ## One permit at each of two nodes -/

/-- A parallel node whose first branch is a parallel node. -/
def nested : Step :=
  .parallel "outer" [both, .call { name := "third", agent := "first"
                                   message := { role := .user, content := [] }, slots := [] }]

/-- Both nodes have dispatched their first branch. -/
def holding : List (List Nat × Move) :=
  [([], .fork), ([], .dispatch 0), ([0], .fork), ([0], .dispatch 0)]

/-- The inner node runs a branch although the only permit of the outer one is
taken, and its second branch waits for the first one. -/
theorem permits_never_lock_nested :
    ∃ h p f next inner next',
      Process.Run oneByOne echoWorld Eq (.line (step pair nested [])) () h p () ∧
        p.at? [] = some (.fan f next) ∧ p.at? [0] = some (.fan inner next') ∧
        f.inUse = 1 ∧ inner.inUse = 1 ∧ p.CanMove oneByOne echoWorld () ∧
        inner.Awaits oneByOne echoWorld [0] p () ∧ Acc (Process.Next oneByOne) p := by
  have hplay : ∃ h p f next inner next' script,
      Process.play? oneByOne echoWorld holding (.line (step pair nested [])) () = some (h, p, ()) ∧
        p = .fan f next ∧ p.at? [0] = some (.fan inner next') ∧ f.inUse = 1 ∧ inner.inUse = 1 ∧
        inner.branches[1]? = some (.waiting script) ∧
        p.move? oneByOne echoWorld [0] (.dispatch 1) () = none :=
    ⟨_, _, _, _, _, _, _, rfl, rfl, rfl, rfl, rfl, rfl, rfl⟩
  obtain ⟨h, p, f, next, inner, next', script, hplay, hp, hinner, huse, huse', hwait, hnone⟩ :=
    hplay
  have hrun : Process.Run oneByOne echoWorld Eq (.line (step pair nested [])) () h p () :=
    Process.Run.start.play hplay
  obtain ⟨-, hmoves, hwaits, hacc⟩ :=
    permits_never_lock oneByOne echoWorld Eq pair nested [] () h p () hrun
  refine ⟨h, p, f, next, inner, next', hrun, by rw [hp]; rfl, hinner, huse, huse',
    hmoves (by rw [hp]; rfl), ?_, hacc⟩
  rcases hwaits [0] inner next' 1 script hinner hwait with hsome | hawaits
  · rw [hnone] at hsome
    cases hsome
  · exact hawaits

end Ensemble.Execution
