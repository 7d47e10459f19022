import Ensemble.Proofs.Process.Termination

/-!
# Permits

A node has a limited number of permits, and its active branches hold them.
No move hands out more of them than there are (`WithinLimit.moves`, and
`Run.withinLimit` for a whole run), at every node of a tree at once.

A node inside a branch has permits of its own, so it never asks for one
that its own branch holds. That is why nothing gets stuck: a branch that
cannot be dispatched waits for active siblings only, and each of these can
end or has something to do below it (`Fan.Awaits`).
-/

namespace Ensemble

variable {A : Type} {R : A → Type} {β W : Type} {config : FanoutConfig}
  {perform : (a : A) → W → R a × W}

/-! ## Active branches after a move -/

namespace Fan

variable {f f' : Fan (Process A R β) (Script A R β) β} {i j : Nat} {p q : Process A R β}

theorem inUse_start (scripts : List (Script A R β)) :
    (start scripts : Fan (Process A R β) (Script A R β) β).inUse = 0 := by
  refine List.countP_eq_zero.mpr fun b hb => ?_
  obtain ⟨script, -, rfl⟩ := List.mem_map.mp hb
  simp [Branch.isActive]

theorem countP_cancel_le (bs : List (Branch (Process A R β) (Script A R β) β)) :
    (bs.map Branch.cancel).countP Branch.isActive ≤ bs.countP Branch.isActive := by
  rw [List.countP_map]
  refine List.countP_mono_left fun b _ hb => ?_
  cases b <;> simp_all [Branch.cancel, Branch.isUnfinished, Branch.isWaiting, Branch.isActive]

/-- A dispatch takes a permit that was free. -/
theorem inUse_dispatch {limit : Option Nat} {run : Script A R β → Process A R β} {n : Nat}
    (hn : limit = some n) (hf : f.dispatch? limit run i = some f') : f'.inUse ≤ max n 1 := by
  subst hn
  unfold dispatch? at hf
  split at hf
  · rename_i script hi
    split at hf
    · rename_i hpermit
      obtain rfl := Option.some.inj hf
      have hfree : f.inUse < max n 1 := by simpa [hasPermit] using hpermit
      have hlt := (List.getElem?_eq_some_iff.mp hi).1
      have hadd : (f.branches.set i (if f.failed then .ended .skipped
          else .active (run script))).countP Branch.isActive ≤ f.inUse + 1 := by
        rw [List.countP_set hlt, inUse]
        refine Nat.add_le_add (Nat.sub_le _ _) ?_
        generalize Branch.isActive _ = b
        cases b <;> simp
      exact Nat.le_trans hadd hfree
    · cases hf
  · cases hf

theorem inUse_finish {ending? : Process A R β → Option (Ending β)}
    (hf : f.finish? ending? i = some f') : f'.inUse ≤ f.inUse := by
  obtain ⟨p, e, hi, -, rfl⟩ := finish?_eq_some hf
  rw [inUse, List.countP_set (List.getElem?_eq_some_iff.mp hi).1, inUse]
  simp [Branch.isActive]

theorem inUse_join {policy : FailurePolicy} (hf : f.join? policy i = some f') :
    f'.inUse ≤ f.inUse := by
  obtain ⟨e, hi, rfl⟩ := join?_eq_some hf
  have hset : (f.branches.set i (.joined e.outcome)).countP Branch.isActive ≤ f.inUse := by
    rw [List.countP_set (List.getElem?_eq_some_iff.mp hi).1, inUse]
    simp [Branch.isActive]
  rw [inUse]
  split
  · exact Nat.le_trans (countP_cancel_le _) hset
  · exact hset

/-- A move below a branch leaves the permits of its node alone. -/
theorem inUse_branch (hi : f.branches[i]? = some (.active p)) :
    (f.branches.set i (.active q)).countP Branch.isActive = f.inUse := by
  obtain ⟨hlt, hget⟩ := List.getElem?_eq_some_iff.mp hi
  have hpos : 0 < f.branches.countP Branch.isActive :=
    List.countP_pos_iff.mpr ⟨_, List.mem_of_getElem? hi, rfl⟩
  rw [List.countP_set hlt, hget, inUse]
  simp only [Branch.isActive, if_true]
  omega

theorem active_of_set {bs : List (Branch (Process A R β) (Script A R β) β)}
    {b : Branch (Process A R β) (Script A R β) β}
    (hj : (bs.set i b)[j]? = some (.active q)) : b = .active q ∨ bs[j]? = some (.active q) := by
  rw [List.getElem?_set] at hj
  split at hj
  · split at hj
    · exact Or.inl (Option.some.inj hj)
    · cases hj
  · exact Or.inr hj

theorem active_of_cancel {bs : List (Branch (Process A R β) (Script A R β) β)} :
    (bs.map Branch.cancel)[j]? ≠ some (.active q) := by
  intro hj
  rw [List.getElem?_map] at hj
  obtain ⟨b, -, hb⟩ := Option.map_eq_some_iff.mp hj
  cases b <;> simp [Branch.cancel, Branch.isUnfinished, Branch.isWaiting, Branch.isActive] at hb

end Fan

/-! ## No node exceeds its limit -/

namespace Process

/-- At every node of the process no more branches are active than there
are permits. -/
def WithinLimit (limit : Option Nat) (p : Process A R β) : Prop :=
  ∀ n, limit = some n → ∀ path f next, p.at? path = some (.fan f next) → f.inUse ≤ max n 1

variable {limit : Option Nat} {f : Fan (Process A R β) (Script A R β) β}
  {next : List (BranchOutcome β) → Script A R β}

theorem at?_cons_eq_some {i : Nat} {path : List Nat} {p q : Process A R β}
    (h : p.at? (i :: path) = some q) : ∃ f next p', p = .fan f next ∧
      f.branches[i]? = some (.active p') ∧ p'.at? path = some q := by
  cases p with
  | line s => cases h
  | fan f next =>
      rw [at?] at h
      split at h
      · exact ⟨f, next, _, rfl, ‹_›, h⟩
      · cases h

theorem withinLimit_line (s : Script A R β) : (line s).WithinLimit limit := by
  intro n _ path f next hat
  cases path <;> cases hat

theorem withinLimit_fan_iff : (fan f next).WithinLimit limit ↔
    (∀ n, limit = some n → f.inUse ≤ max n 1) ∧
      ∀ (i : Nat) (p : Process A R β), f.branches[i]? = some (.active p) → p.WithinLimit limit := by
  constructor
  · intro h
    refine ⟨fun n hn => h n hn [] f next rfl, fun i p hi n hn path f' next' hat => ?_⟩
    exact h n hn (i :: path) f' next' (by simpa [at?, hi] using hat)
  · rintro ⟨hnode, hbranches⟩ n hn path f' next' hat
    cases path with
    | nil =>
        obtain ⟨rfl, rfl⟩ := fan.inj (Option.some.inj hat)
        exact hnode n hn
    | cons i path =>
        obtain ⟨_, _, p, heq, hi, hat⟩ := at?_cons_eq_some hat
        obtain ⟨rfl, -⟩ := fan.inj heq
        exact hbranches i p hi n hn path f' next' hat

/-- No move hands out a permit too many. -/
theorem WithinLimit.moves {p p' : Process A R β} {h : History A R}
    (hp : p.WithinLimit config.maxConcurrency) (hm : p.Moves config h p') :
    p'.WithinLimit config.maxConcurrency := by
  induction hm with
  | act | pause | collect => exact withinLimit_line _
  | fork branches next =>
      refine withinLimit_fan_iff.mpr ⟨fun n _ => by simp [Fan.inUse_start], fun i p hi => ?_⟩
      obtain ⟨script, -, hscript⟩ := List.mem_map.mp (List.mem_of_getElem? hi)
      cases hscript
  | @dispatch f f' next i hf =>
      refine withinLimit_fan_iff.mpr ⟨fun n hn => Fan.inUse_dispatch hn hf, fun j q hj => ?_⟩
      obtain ⟨script, -, rfl⟩ := Fan.dispatch?_eq_some hf
      rcases Fan.active_of_set hj with hnew | hold
      · split at hnew
        · cases hnew
        · obtain rfl := Branch.active.inj hnew
          exact withinLimit_line script
      · exact (withinLimit_fan_iff.mp hp).2 j q hold
  | @finish f f' next i hf =>
      obtain ⟨hnode, hbranches⟩ := withinLimit_fan_iff.mp hp
      refine withinLimit_fan_iff.mpr
        ⟨fun n hn => Nat.le_trans (Fan.inUse_finish hf) (hnode n hn), fun j q hj => ?_⟩
      obtain ⟨_, e, -, -, rfl⟩ := Fan.finish?_eq_some hf
      rcases Fan.active_of_set hj with hnew | hold
      · cases hnew
      · exact hbranches j q hold
  | @join f f' next i hf =>
      obtain ⟨hnode, hbranches⟩ := withinLimit_fan_iff.mp hp
      refine withinLimit_fan_iff.mpr
        ⟨fun n hn => Nat.le_trans (Fan.inUse_join hf) (hnode n hn), fun j q hj => ?_⟩
      obtain ⟨e, -, rfl⟩ := Fan.join?_eq_some hf
      dsimp only at hj
      split at hj
      · exact absurd hj Fan.active_of_cancel
      · rcases Fan.active_of_set hj with hnew | hold
        · cases hnew
        · exact hbranches j q hold
  | @branch f next i q q' h hi _ ih =>
      obtain ⟨hnode, hbranches⟩ := withinLimit_fan_iff.mp hp
      refine withinLimit_fan_iff.mpr ⟨fun n hn => ?_, fun j q hj => ?_⟩
      · exact Nat.le_trans (Nat.le_of_eq (Fan.inUse_branch hi)) (hnode n hn)
      rcases Fan.active_of_set hj with hnew | hold
      · obtain rfl := Branch.active.inj hnew
        exact ih (hbranches i _ hi)
      · exact hbranches j q hold

theorem Run.withinLimit {drift : W → W → Prop} {p₀ p : Process A R β} {w₀ w : W}
    {h : History A R} (hp : p₀.WithinLimit config.maxConcurrency)
    (hrun : Run config perform drift p₀ w₀ h p w) : p.WithinLimit config.maxConcurrency := by
  induction hrun with
  | start => exact hp
  | drift _ _ ih => exact ih
  | move path m _ hm ih => exact ih.moves (moves_of_move? hm)

/-- What a run has led to does not go on for ever. -/
theorem Run.acc {drift : W → W → Prop} {s : Script A R β} {p : Process A R β} {w₀ w : W}
    {h : History A R} (hrun : Run config perform drift (.line s) w₀ h p w) :
    Acc (Next config) p := by
  induction hrun with
  | start => exact s.acc_next config
  | drift _ _ ih => exact ih
  | move path m _ hm ih => exact ih.inv ⟨_, moves_of_move? hm⟩

end Process

/-! ## What is below a path -/

namespace Script.Reaches

variable {policy : FailurePolicy} {s : Script A R β} {h : History A R} {p q : Process A R β}

/-- An active branch has been reached by a script of its own. -/
theorem branch {f : Fan (Process A R β) (Script A R β) β}
    {next : List (BranchOutcome β) → Script A R β} {i : Nat}
    (hr : s.Reaches policy h (.fan f next)) (hi : f.branches[i]? = some (.active q)) :
    ∃ (s' : Script A R β) (h' : History A R), s'.Reaches policy h' q := by
  generalize hp : Process.fan f next = p at hr
  induction hr with
  | start => cases hp
  | act _ ih => exact ih hp
  | pause _ ih => exact ih hp
  | fork stands runs _ =>
      obtain ⟨rfl, rfl⟩ := Process.fan.inj hp
      obtain ⟨script, hs, hshow⟩ := stands.at_branch hi
      exact ⟨script, _, runs i script q hs (by rw [Fate.shows_active hshow]; rfl)⟩
  | collect _ _ _ _ _ ih => exact ih hp

theorem at_path {path : List Nat} (hr : s.Reaches policy h p) (hat : p.at? path = some q) :
    ∃ (s' : Script A R β) (h' : History A R), s'.Reaches policy h' q := by
  induction path generalizing s h p with
  | nil =>
      obtain rfl := Option.some.inj hat
      exact ⟨s, h, hr⟩
  | cons i path ih =>
      obtain ⟨f, next, p', rfl, hi, hat⟩ := Process.at?_cons_eq_some hat
      obtain ⟨s', h', hr'⟩ := hr.branch hi
      exact ih hr' hat

end Script.Reaches

/-- What the process at a path can do, it can do as a part of the whole. -/
theorem Process.isSome_move?_append {p q : Process A R β} {w : W} {path below : List Nat} {m : Move}
    (hat : p.at? path = some q) (hm : (q.move? config perform below m w).isSome = true) :
    (p.move? config perform (path ++ below) m w).isSome = true := by
  induction path generalizing p with
  | nil =>
      obtain rfl := Option.some.inj hat
      exact hm
  | cons i path ih =>
      obtain ⟨f, next, p', rfl, hi, hat⟩ := at?_cons_eq_some hat
      simpa [move?, changeAt?, hi] using ih hat

/-! ## Waiting for a permit -/

/-- What a branch waits for that cannot be dispatched at the node at a path:
the siblings that hold all permits, each of which can end or move. -/
structure Fan.Awaits (config : FanoutConfig) (perform : (a : A) → W → R a × W) (path : List Nat)
    (p : Process A R β) (w : W) (f : Fan (Process A R β) (Script A R β) β) : Prop where
  full : ∃ n, config.maxConcurrency = some n ∧ f.inUse = max n 1
  holders : ∀ (j : Nat) (q : Process A R β), f.branches[j]? = some (.active q) →
    (p.move? config perform path (.finish j) w).isSome = true ∨
      ∃ below m, (p.move? config perform (path ++ j :: below) m w).isSome = true

/-- A branch that waits can be dispatched, or it waits for siblings that can
go on. -/
theorem Script.Reaches.dispatches {s : Script A R β} {h : History A R} {p : Process A R β} {w : W}
    {path : List Nat} {f : Fan (Process A R β) (Script A R β) β}
    {next : List (BranchOutcome β) → Script A R β} {i : Nat} {script : Script A R β}
    (hr : s.Reaches config.failure h p) (hlimit : p.WithinLimit config.maxConcurrency)
    (hat : p.at? path = some (.fan f next)) (hi : f.branches[i]? = some (.waiting script)) :
    (p.move? config perform path (.dispatch i) w).isSome = true ∨
      f.Awaits config perform path p w := by
  by_cases hpermit : f.hasPermit config.maxConcurrency = true
  · left
    have hm : ((Process.fan f next).move? config perform [] (.dispatch i) w).isSome = true := by
      simp [Process.move?, Process.changeAt?, Process.step?, Fan.dispatch?, hi, hpermit]
    simpa using Process.isSome_move?_append hat hm
  · refine Or.inr ⟨?_, fun j q hj => ?_⟩
    · cases hn : config.maxConcurrency with
      | none => simp [Fan.hasPermit, hn] at hpermit
      | some n =>
          have hge : max n 1 ≤ f.inUse := by
            rw [hn] at hpermit
            simpa only [Fan.hasPermit, decide_eq_true_eq, Nat.not_lt] using hpermit
          exact ⟨n, rfl, Nat.le_antisymm (hlimit n hn path f next hat) hge⟩
    · cases he : q.ending? with
      | some e =>
          left
          have hm : ((Process.fan f next).move? config perform [] (.finish j) w).isSome = true := by
            simp [Process.move?, Process.changeAt?, Process.step?, Fan.finish?, hj, he]
          simpa using Process.isSome_move?_append hat hm
      | none =>
          obtain ⟨_, _, hnode⟩ := hr.at_path hat
          obtain ⟨_, _, hbranch⟩ := hnode.branch hj
          have hmoves : q.CanMove config perform w := hbranch.can_move he
          obtain ⟨below, m, hm⟩ := hmoves
          have hfan :
              ((Process.fan f next).move? config perform (j :: below) m w).isSome = true := by
            simpa [Process.move?, Process.changeAt?, hj] using hm
          exact Or.inr ⟨below, m, Process.isSome_move?_append hat hfan⟩

end Ensemble
