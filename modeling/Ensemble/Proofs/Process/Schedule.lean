import Ensemble.Process.Schedule
import Ensemble.Proofs.Process.Run

/-!
# Schedules are runs

All that a schedule does to a process is a move of it, and all that it
does to the world besides is to let the reader read and the clock jump
(`Machine.Drifts`). So a schedule that has come to its end shows one of
the runs of its process (`run?_runs`), and what holds of all runs holds of
it.
-/

namespace Ensemble

variable {A : Type} {R : A → Type} {β W : Type}

/-- What the world of a schedule does between two moves. -/
def Machine.Drifts (m : Machine A R W) (w w' : W) : Prop :=
  w' = m.read w ∨ ∃ time, w' = m.setTime time w

namespace Schedule

variable {config : FanoutConfig} {m : Machine A R W} {s s' s'' : Schedule A R β W}

/-! ## What keeps process and world -/

/-- Two schedules that differ in their queues only. -/
structure Keeps (s s' : Schedule A R β W) : Prop where
  process : s'.process = s.process
  world : s'.world = s.world

namespace Keeps

theorem refl (s : Schedule A R β W) : Keeps s s := ⟨rfl, rfl⟩

theorem trans (h : Keeps s s') (h' : Keeps s' s'') : Keeps s s'' :=
  ⟨h'.process.trans h.process, h'.world.trans h.world⟩

theorem wake (t : Turn) (s : Schedule A R β W) : Keeps s (s.wake t) := by
  unfold Schedule.wake
  split <;> exact ⟨rfl, rfl⟩

theorem wakeStalled (s : Schedule A R β W) : Keeps s s.wakeStalled := by
  unfold Schedule.wakeStalled
  split
  · exact .wake _ s
  · exact .refl s

theorem wakeReader (m : Machine A R W) (s : Schedule A R β W) : Keeps s (s.wakeReader m) := by
  unfold Schedule.wakeReader
  split
  · exact .wake _ s
  · exact .refl s

theorem forget (path dropped : List Nat) (s : Schedule A R β W) :
    Keeps s (s.forget path dropped) :=
  ⟨(wakeStalled _).process, (wakeStalled _).world⟩

theorem release (path : List Nat) (s : Schedule A R β W) : Keeps s (s.release path) := by
  unfold Schedule.release
  dsimp only
  split
  · exact (Keeps.wake _ s).trans (.wake _ _)
  · exact .wake _ s

end Keeps

/-! ## Moves and turns -/

/-- Every run that has come to `s` can go on to `s'`. -/
def Leads (config : FanoutConfig) (m : Machine A R W) (s s' : Schedule A R β W) : Prop :=
  ∀ p₀ w₀ h, Process.Run config m.perform m.Drifts p₀ w₀ h s.process s.world →
    ∃ h', Process.Run config m.perform m.Drifts p₀ w₀ h' s'.process s'.world

namespace Leads

theorem of_keeps (h : Keeps s s') : Leads config m s s' := by
  intro p₀ w₀ hist hrun
  exact ⟨hist, by rwa [h.process, h.world]⟩

theorem trans (h : Leads config m s s') (h' : Leads config m s' s'') : Leads config m s s'' := by
  intro p₀ w₀ hist hrun
  obtain ⟨hist', hrun'⟩ := h p₀ w₀ hist hrun
  exact h' p₀ w₀ hist' hrun'

theorem keeps (h : Leads config m s s') (h' : Keeps s' s'') : Leads config m s s'' :=
  h.trans (.of_keeps h')

theorem drift (hdrift : m.Drifts s.world s'.world) (hprocess : s'.process = s.process) :
    Leads config m s s' := by
  intro p₀ w₀ hist hrun
  exact ⟨hist, hprocess ▸ hrun.drift hdrift⟩

theorem of_move? {path : List Nat} {move : Move} (h : s.move? config m path move = some s') :
    Leads config m s s' := by
  intro p₀ w₀ hist hrun
  obtain ⟨⟨p, w⟩, hmove, rfl⟩ := Option.map_eq_some_iff.mp h
  exact ⟨_, .move path move hrun hmove⟩

theorem of_leave {path : List Nat} (h : advance?.leave config m path s = some s') :
    Leads config m s s' := by
  unfold advance?.leave at h
  split at h
  · obtain rfl := Option.some.inj h
    exact .of_keeps ⟨rfl, rfl⟩
  · obtain ⟨s₁, hmove, rfl⟩ := Option.map_eq_some_iff.mp h
    exact (of_move? hmove).keeps ((Keeps.release _ s₁).trans ⟨rfl, rfl⟩)

/-- The task that has the turn makes a move, or it has to wait. -/
theorem of_advance? {path : List Nat} (h : s.advance? config m path = some s') :
    Leads config m s s' := by
  unfold advance? at h
  obtain ⟨p, -, h⟩ := Option.bind_eq_some_iff.mp h
  split at h
  · -- an act
    split at h
    · exact of_move? h
    · split at h
      · obtain ⟨s₁, hmove, h⟩ := Option.bind_eq_some_iff.mp h
        obtain rfl := Option.some.inj h
        refine (of_move? hmove).keeps ((Keeps.wakeReader m s₁).trans ?_)
        split
        · exact .refl _
        · exact ⟨(Keeps.wakeStalled _).process, (Keeps.wakeStalled _).world⟩
      · obtain rfl := Option.some.inj h
        exact .of_keeps ⟨rfl, rfl⟩
  · -- a pause
    obtain ⟨s₁, hmove, h⟩ := Option.bind_eq_some_iff.mp h
    obtain rfl := Option.some.inj h
    refine (of_move? hmove).keeps ?_
    split
    · exact .refl _
    · exact ⟨rfl, rfl⟩
  · -- a fork
    obtain ⟨s₁, hmove, h⟩ := Option.bind_eq_some_iff.mp h
    obtain rfl := Option.some.inj h
    exact (of_move? hmove).keeps ⟨rfl, rfl⟩
  · exact of_leave h
  · exact of_leave h
  · -- a node
    split at h
    · obtain ⟨s₁, hmove, h⟩ := Option.bind_eq_some_iff.mp h
      obtain ⟨after, -, h⟩ := Option.bind_eq_some_iff.mp h
      obtain rfl := Option.some.inj h
      refine (of_move? hmove).keeps ?_
      split
      · exact .refl _
      · exact (Keeps.forget _ _ s₁).trans (.wake _ _)
    · split at h
      · exact of_move? h
      · obtain rfl := Option.some.inj h
        exact .of_keeps ⟨rfl, rfl⟩

/-- A task that gets the turn may need a permit for it. -/
theorem enter (path : List Nat) (s : Schedule A R β W) :
    Leads config m s (s.enter config m path) := by
  unfold Schedule.enter
  dsimp only
  split
  · exact .of_keeps ⟨rfl, rfl⟩
  · split
    · exact .of_keeps ⟨rfl, rfl⟩
    · split
      · exact .of_keeps ⟨rfl, rfl⟩
      · rename_i s₁ hmove
        refine (Leads.of_keeps ⟨rfl, rfl⟩).trans ((of_move? hmove).keeps ?_)
        split
        · exact .refl _
        · exact (Keeps.release _ s₁).trans ⟨rfl, rfl⟩
    · exact .of_keeps ⟨rfl, rfl⟩

theorem of_step? (h : s.step? config m = some s') : Leads config m s s' := by
  unfold step? at h
  split at h
  · exact of_advance? h
  · split at h
    · obtain rfl := Option.some.inj h
      have hread : Leads config m s { s with world := m.read s.world } := drift (Or.inl rfl) rfl
      exact hread.keeps ⟨(Keeps.wakeStalled _).process, (Keeps.wakeStalled _).world⟩
    · rename_i path ready hready
      obtain rfl := Option.some.inj h
      have hqueue : Leads config m s { s with ready } := .of_keeps ⟨rfl, rfl⟩
      exact hqueue.trans (enter path _)
    · split at h
      · cases h
      · obtain rfl := Option.some.inj h
        exact drift (Or.inr ⟨_, rfl⟩) rfl

theorem of_run? {fuel : Nat} (h : s.run? config m fuel = some s') : Leads config m s s' := by
  induction fuel generalizing s with
  | zero => cases h
  | succ fuel ih =>
      rw [run?] at h
      split at h
      · obtain rfl := Option.some.inj h
        exact .of_keeps (.refl _)
      · rename_i s₁ hstep
        exact (of_step? hstep).trans (ih h)

end Leads

/-- **Schedules are runs.** Where a schedule comes to its end, a run of its
process does. -/
theorem run?_runs {script : Script A R β} {w : W} {time fuel : Nat}
    (h : (Schedule.start script w time).run? config m fuel = some s) :
    ∃ hist, Process.Run config m.perform m.Drifts (.line script) w hist s.process s.world :=
  Leads.of_run? h _ _ [] .start

end Schedule

end Ensemble
