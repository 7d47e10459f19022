import Ensemble.Process.Schedule
import Ensemble.Proofs.Process.Twins

/-!
# Schedules of twins

Who gets the next turn depends on the shape of the process, on the queues,
on the clock, and on the room in the stream, but not on what is said by acts
that are alike. So the schedules of twin processes, in worlds whose streams
are equally full (`Likeness.Drives`), take the same turns (`step?_twin`) and
come to the same end (`run?_twin`).
-/

namespace Ensemble

variable {A : Type} {R : A → Type} {β W : Type}

/-- What a schedule sees of like acts and of related worlds is the same. -/
structure Likeness.Drives (L : Likeness A R) (m : Machine A R W) (S : W → W → Prop) : Prop where
  performs : L.Performs m.perform S
  writes : ∀ a a', L.act a a' → m.writes a' = m.writes a
  hasRoom : ∀ w w', S w w' → m.hasRoom w' = m.hasRoom w
  hasUnread : ∀ w w', S w w' → m.hasUnread w' = m.hasUnread w
  read : ∀ w w', S w w' → S (m.read w) (m.read w')
  setTime : ∀ time w w', S w w' → S (m.setTime time w) (m.setTime time w')

namespace Schedule

variable {L : Likeness A R} {S : W → W → Prop} {m : Machine A R W} (config : FanoutConfig)
  {s s' : Schedule A R β W}

/-- Schedules of twins, with the same queues at the same time. -/
structure Twin (L : Likeness A R) (S : W → W → Prop) (s s' : Schedule A R β W) : Prop where
  process : s.process.Twin L s'.process
  world : S s.world s'.world
  current : s'.current = s.current
  ready : s'.ready = s.ready
  pauses : s'.pauses = s.pauses
  stalled : s'.stalled = s.stalled
  time : s'.time = s.time

/-! ## Queues -/

namespace Twin

theorem wake (h : Twin L S s s') (t : Turn) : Twin L S (s.wake t) (s'.wake t) := by
  rw [Schedule.wake, Schedule.wake, h.ready]
  split
  · exact h
  · exact ⟨h.process, h.world, h.current, rfl, h.pauses, h.stalled, h.time⟩

theorem endTurn (h : Twin L S s s') : Twin L S s.endTurn s'.endTurn :=
  ⟨h.process, h.world, rfl, h.ready, h.pauses, h.stalled, h.time⟩

theorem pauseFor (h : Twin L S s s') (ms : Nat) (path : List Nat) :
    Twin L S (s.pauseFor ms path) (s'.pauseFor ms path) := by
  refine ⟨h.process, h.world, h.current, h.ready, ?_, h.stalled, h.time⟩
  rw [Schedule.pauseFor, Schedule.pauseFor, h.pauses, h.time]

theorem wakeStalled (h : Twin L S s s') : Twin L S s.wakeStalled s'.wakeStalled := by
  rw [Schedule.wakeStalled, Schedule.wakeStalled, h.stalled]
  split
  · exact h.wake _
  · exact h

theorem forget (h : Twin L S s s') (path dropped : List Nat) :
    Twin L S (s.forget path dropped) (s'.forget path dropped) := by
  rw [Schedule.forget, Schedule.forget]
  refine Twin.wakeStalled ⟨h.process, h.world, h.current, ?_, ?_, ?_, h.time⟩
  all_goals simp only [h.ready, h.pauses, h.stalled]

theorem wakeReader (hL : L.Drives m S) (h : Twin L S s s') :
    Twin L S (s.wakeReader m) (s'.wakeReader m) := by
  rw [Schedule.wakeReader, Schedule.wakeReader, hL.hasUnread _ _ h.world]
  split
  · exact h.wake _
  · exact h

theorem mayWrite (hL : L.Drives m S) (h : Twin L S s s') (path : List Nat) :
    s'.mayWrite m path = s.mayWrite m path := by
  rw [Schedule.mayWrite, Schedule.mayWrite, hL.hasRoom _ _ h.world, h.stalled]

/-! ## Moves -/

theorem move? (hL : L.Drives m S) (h : Twin L S s s') (path : List Nat) (move : Move) :
    Option.Rel (Twin L S) (s.move? config m path move) (s'.move? config m path move) :=
  optionRel_map (Process.move?_twin hL.performs h.process h.world path) fun _ _ hx =>
    ⟨hx.1, hx.2, h.current, h.ready, h.pauses, h.stalled, h.time⟩

theorem fan? (h : Twin L S s s') (path : List Nat) :
    Option.Rel (Fan.Rel (Process.Twin L) (Script.Twin L)) (s.fan? path) (s'.fan? path) := by
  refine optionRel_bind (h.process.at? path) fun p p' hp => ?_
  cases hp with
  | line => exact .none
  | fan failed branches tail => exact .some ⟨failed, branches⟩

theorem release (h : Twin L S s s') (path : List Nat) :
    Twin L S (s.release path) (s'.release path) := by
  have hfan := h.fan? path
  rw [Schedule.release, Schedule.release]
  generalize s.fan? path = f, s'.fan? path = f' at hfan
  cases hfan with
  | none => exact h.wake _
  | @some f f' hf =>
      have hnext : (List.range f'.branches.length).find? (fun i =>
            (f'.branches[i]?.any Branch.isWaiting) && !s'.ready.contains (.task (path ++ [i])))
          = (List.range f.branches.length).find? fun i =>
            (f.branches[i]?.any Branch.isWaiting) && !s.ready.contains (.task (path ++ [i])) := by
        simp only [hf.any fun _ _ => Branch.Rel.isWaiting, hf.branches.length_eq, h.ready]
      dsimp only [Option.bind_eq_bind, Option.bind_some]
      rw [hnext]
      split
      · exact (h.wake _).wake _
      · exact h.wake _

theorem leave (hL : L.Drives m S) (h : Twin L S s s') (path : List Nat) :
    Option.Rel (Twin L S) (advance?.leave config m path s) (advance?.leave config m path s') := by
  rw [advance?.leave, advance?.leave]
  split
  · exact .some h.endTurn
  · exact optionRel_map (h.move? config hL _ _) fun _ _ hs => (hs.release _).endTurn

/-- An act waits for room in both schedules or in neither. -/
theorem advance?_act (hL : L.Drives m S) (h : Twin L S s s') {a a' : A}
    {next : R a → Script A R β} {next' : R a' → Script A R β} (ha : L.act a a') (path : List Nat)
    (hs : s.process.at? path = some (.line (.act a next)))
    (hs' : s'.process.at? path = some (.line (.act a' next'))) :
    Option.Rel (Twin L S) (s.advance? config m path) (s'.advance? config m path) := by
  unfold Schedule.advance?
  rw [hs, hs']
  dsimp only [Option.bind_eq_bind, Option.bind_some]
  rw [hL.writes _ _ ha, h.mayWrite hL]
  split
  · exact h.move? config hL path .act
  · split
    · refine optionRel_bind (h.move? config hL path .act) fun s₁ s₁' hmoved => .some ?_
      have hread := hmoved.wakeReader hL
      rw [hread.stalled]
      split
      · exact hread
      · exact Twin.wakeStalled ⟨hread.process, hread.world, hread.current, hread.ready,
          hread.pauses, rfl, hread.time⟩
    · refine .some (Twin.endTurn ⟨h.process, h.world, h.current, h.ready, h.pauses, ?_, h.time⟩)
      rw [h.stalled]

/-- A node joins the same branches in both schedules, which drops the same ones. -/
theorem advance?_fan (hL : L.Drives m S) (h : Twin L S s s')
    {f f' : Fan (Process A R β) (Script A R β) β}
    {next next' : List (BranchOutcome β) → Script A R β}
    (hf : Fan.Rel (Process.Twin L) (Script.Twin L) f f') (path : List Nat)
    (hs : s.process.at? path = some (.fan f next))
    (hs' : s'.process.at? path = some (.fan f' next')) :
    Option.Rel (Twin L S) (s.advance? config m path) (s'.advance? config m path) := by
  unfold Schedule.advance?
  rw [hs, hs']
  dsimp only [Option.bind_eq_bind, Option.bind_some]
  rw [hf.toJoin?, hf.outcomes?, h.ready]
  split
  · rename_i i _
    refine optionRel_bind (h.move? config hL path (.join i)) fun s₁ s₁' hmoved => ?_
    refine optionRel_bind (hmoved.fan? path) fun after after' hafter => .some ?_
    simp only [hf.any fun _ _ => Branch.Rel.isUnfinished, hf.branches.length_eq,
      hafter.any fun _ _ => Branch.Rel.isUnfinished]
    split
    · exact hmoved
    · exact (hmoved.forget path _).wake _
  · split
    · exact h.move? config hL path .collect
    · exact .some h.endTurn

theorem advance? (hL : L.Drives m S) (h : Twin L S s s') (path : List Nat) :
    Option.Rel (Twin L S) (s.advance? config m path) (s'.advance? config m path) := by
  have hat := h.process.at? path
  generalize hs : s.process.at? path = p, hs' : s'.process.at? path = p' at hat
  cases hat with
  | none =>
      unfold Schedule.advance?
      rw [hs, hs']
      exact .none
  | some hp =>
      cases hp with
      | fan failed branches tail => exact h.advance?_fan config hL ⟨failed, branches⟩ path hs hs'
      | line hscript =>
          cases hscript with
          | act head tail => exact h.advance?_act config hL head path hs hs'
          | @pause ms next next' tail =>
              unfold Schedule.advance?
              rw [hs, hs']
              refine optionRel_bind (h.move? config hL path .act) fun s₁ s₁' hmoved => .some ?_
              split
              · exact hmoved
              · exact (hmoved.pauseFor ms path).endTurn
          | fork length inner tail =>
              unfold Schedule.advance?
              rw [hs, hs']
              refine optionRel_bind (h.move? config hL path .fork) fun s₁ s₁' hmoved => .some ?_
              refine ⟨hmoved.process, hmoved.world, hmoved.current, ?_, hmoved.pauses,
                hmoved.stalled, hmoved.time⟩
              rw [hmoved.ready, length]
          | ret | crash =>
              unfold Schedule.advance?
              rw [hs, hs']
              exact h.leave config hL path

theorem enter (hL : L.Drives m S) (h : Twin L S s s') (path : List Nat) :
    Twin L S (s.enter config m path) (s'.enter config m path) := by
  have hturn : Twin L S { s with current := some path } { s' with current := some path } :=
    ⟨h.process, h.world, rfl, h.ready, h.pauses, h.stalled, h.time⟩
  rw [Schedule.enter, Schedule.enter]
  generalize { s with current := some path } = t, { s' with current := some path } = t' at hturn
  dsimp only
  split
  · exact hturn
  · rename_i i _
    have hbranch : Option.Rel (Branch.Rel (Process.Twin L) (Script.Twin L))
        ((t.fan? path.dropLast).bind fun f => f.branches[i]?)
        ((t'.fan? path.dropLast).bind fun f => f.branches[i]?) :=
      optionRel_bind (hturn.fan? _) fun f f' hf => forall₂_getElem? hf.branches i
    generalize (t.fan? path.dropLast).bind _ = b, (t'.fan? path.dropLast).bind _ = b' at hbranch
    cases hbranch with
    | none => exact hturn.endTurn
    | some hb =>
        cases hb with
        | active hp => exact hturn
        | waiting hw =>
            have hmoved := hturn.move? config hL path.dropLast (.dispatch i)
            dsimp only
            generalize t.move? config m path.dropLast (.dispatch i) = x,
              t'.move? config m path.dropLast (.dispatch i) = x' at hmoved
            cases hmoved with
            | none => exact hturn.endTurn
            | @some s₁ s₁' hs =>
                have hat := hs.process.at? path
                dsimp only
                generalize s₁.process.at? path = p, s₁'.process.at? path = p' at hat
                cases hat with
                | none => exact (hs.release _).endTurn
                | some hp => exact hs
        | ended | joined => exact hturn.endTurn

theorem step? (hL : L.Drives m S) (h : Twin L S s s') :
    Option.Rel (Twin L S) (s.step? config m) (s'.step? config m) := by
  rw [Schedule.step?, Schedule.step?, h.current, h.ready, h.pauses]
  split
  · exact h.advance? config hL _
  · split
    · exact .some (Twin.wakeStalled ⟨h.process, hL.read _ _ h.world, rfl, rfl, rfl, h.stalled,
        h.time⟩)
    · refine .some (Twin.enter config hL ?_ _)
      exact ⟨h.process, h.world, rfl, rfl, rfl, h.stalled, h.time⟩
    · split
      · exact .none
      · exact .some ⟨h.process, hL.setTime _ _ _ h.world, rfl, rfl, rfl, h.stalled, rfl⟩

/-- Schedules of twins need equally many moves, and end as twins. -/
theorem run? (hL : L.Drives m S) (h : Twin L S s s') (fuel : Nat) :
    Option.Rel (Twin L S) (s.run? config m fuel) (s'.run? config m fuel) := by
  induction fuel generalizing s s' with
  | zero => exact .none
  | succ fuel ih =>
      have hstep := h.step? config hL
      rw [Schedule.run?, Schedule.run?]
      generalize s.step? config m = x, s'.step? config m = x' at hstep
      cases hstep with
      | none => exact .some h
      | some hnext => exact ih hnext

end Twin

theorem twin_start {script script' : Script A R β} {w w' : W} (hscript : script.Twin L script')
    (hw : S w w') (time : Nat) :
    Twin L S (start script w time) (start script' w' time) :=
  ⟨.line hscript, hw, rfl, rfl, rfl, rfl, rfl⟩

end Schedule

end Ensemble
