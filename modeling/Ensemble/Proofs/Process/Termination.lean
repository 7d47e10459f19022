import Ensemble.Proofs.Process.Ending
import Mathlib.Logic.Relation

/-!
# Runs end

A task cannot go on for ever, and it does not get stuck: from every
script only finitely many moves can follow each other
(`Script.acc_next`), and whatever the script reaches has ended or can
move (`Script.Reaches.can_move`). There is no bound on the number of
moves, since a reply may bring any number of further acts with it.

A fan is lowered one branch at a time: a waiting branch is dispatched, an
active one moves or ends, an ended one is joined, and none of this can be
undone. Cancelling lowers several branches, one after the other.
-/

namespace Ensemble

/-! ## Lists of which one item is lowered -/

/-- The first list is the second one with one item lowered. -/
inductive Lowers {α : Type} (r : α → α → Prop) : List α → List α → Prop
  | head {a a' : α} {l : List α} : r a' a → Lowers r (a' :: l) (a :: l)
  | tail {a : α} {l l' : List α} : Lowers r l' l → Lowers r (a :: l') (a :: l)

namespace Lowers

variable {α : Type} {r : α → α → Prop}

theorem acc_cons {a : α} (ha : Acc r a) {l : List α} (hl : Acc (Lowers r) l) :
    Acc (Lowers r) (a :: l) := by
  induction ha generalizing l with
  | intro a _ iha =>
      induction hl with
      | intro l hl ihl =>
          refine ⟨_, fun l' h => ?_⟩
          cases h with
          | head h => exact iha _ h ⟨_, hl⟩
          | tail h => exact ihl _ h

/-- If no item can be lowered for ever, the list cannot. -/
theorem acc_of_items {l : List α} (h : ∀ a ∈ l, Acc r a) : Acc (Lowers r) l := by
  induction l with
  | nil => exact ⟨_, fun l' h' => by cases h'⟩
  | cons a l ih =>
      exact acc_cons (h a (List.mem_cons_self ..)) (ih fun b hb => h b (List.mem_cons_of_mem _ hb))

theorem set {l : List α} {i : Nat} {a a' : α} (hi : l[i]? = some a) (hr : r a' a) :
    Lowers r (l.set i a') l := by
  induction l generalizing i with
  | nil => cases hi
  | cons b l ih =>
      cases i with
      | zero =>
          obtain rfl : b = a := by simpa using hi
          exact .head hr
      | succ i => exact .tail (ih (by simpa using hi))

/-- Lowering some items is lowering them one after the other. -/
theorem map {g : α → α} {l : List α} (hg : ∀ a, g a = a ∨ r (g a) a) :
    Relation.ReflTransGen (Lowers r) (l.map g) l := by
  induction l with
  | nil => exact .refl
  | cons a l ih =>
      have htail : Relation.ReflTransGen (Lowers r) (g a :: l.map g) (g a :: l) :=
        ih.lift (g a :: ·) fun _ _ => .tail
      rcases hg a with heq | hr
      · rw [List.map_cons, heq]
        rwa [heq] at htail
      · exact htail.tail (.head hr)

end Lowers

variable {A : Type} {R : A → Type} {β W : Type} {config : FanoutConfig}

/-! ## Branches go down -/

/-- A branch after a move that it takes part in. -/
inductive Branch.Sinks (config : FanoutConfig) :
    Branch (Process A R β) (Script A R β) β → Branch (Process A R β) (Script A R β) β → Prop
  | dispatched (script : Script A R β) : Sinks config (.active (.line script)) (.waiting script)
  | skipped (script : Script A R β) : Sinks config (.ended .skipped) (.waiting script)
  | moved {p p' : Process A R β} {h : History A R} :
      p.Moves config h p' → Sinks config (.active p') (.active p)
  | ended (p : Process A R β) (e : Ending β) : Sinks config (.ended e) (.active p)
  | joined (e : Ending β) (o : BranchOutcome β) : Sinks config (.joined o) (.ended e)
  | dropped (b : Branch (Process A R β) (Script A R β) β) :
      b.isUnfinished = true → Sinks config (.joined .cancelled) b

/-- One process is the other one after a move in some world. -/
def Process.Next (config : FanoutConfig) (p' p : Process A R β) : Prop :=
  ∃ h, p.Moves config h p'

namespace Branch

theorem acc_joined (o : BranchOutcome β) :
    Acc (Sinks (A := A) (R := R) (β := β) config) (.joined o) := by
  refine ⟨_, fun b h => ?_⟩
  cases h with
  | dropped _ h => cases h

theorem acc_ended (e : Ending β) :
    Acc (Sinks (A := A) (R := R) (β := β) config) (.ended e) := by
  refine ⟨_, fun b h => ?_⟩
  cases h with
  | joined => exact acc_joined _
  | dropped _ h => cases h

theorem acc_active {p : Process A R β} (hp : Acc (Process.Next config) p) :
    Acc (Sinks config) (.active p) := by
  induction hp with
  | intro p _ ih =>
      refine ⟨_, fun b h => ?_⟩
      cases h with
      | moved hm => exact ih _ ⟨_, hm⟩
      | ended => exact acc_ended _
      | dropped => exact acc_joined _

theorem acc_waiting {script : Script A R β} (hs : Acc (Process.Next config) (.line script)) :
    Acc (Sinks config) (.waiting script) := by
  refine ⟨_, fun b h => ?_⟩
  cases h with
  | dispatched => exact acc_active hs
  | skipped => exact acc_ended _
  | dropped => exact acc_joined _

theorem cancel_sinks (b : Branch (Process A R β) (Script A R β) β) :
    b.cancel = b ∨ Sinks config b.cancel b := by
  unfold cancel
  split
  · exact Or.inr (.dropped b ‹_›)
  · exact Or.inl rfl

end Branch

/-! ## Fans go down -/

namespace Fan

variable {f f' : Fan (Process A R β) (Script A R β) β}
  {next : List (BranchOutcome β) → Script A R β}

/-- A move of a fan lowers its branches, unless it collects them. -/
theorem lowers_of_moves {q : Process A R β} {h : History A R}
    (hm : (Process.fan f next).Moves config h q) :
    (∃ outcomes, q = .line (next outcomes)) ∨ ∃ f', q = .fan f' next
      ∧ Relation.TransGen (Lowers (Branch.Sinks config)) f'.branches f.branches := by
  cases hm with
  | dispatch hf =>
      obtain ⟨script, hb, rfl⟩ := dispatch?_eq_some hf
      refine Or.inr ⟨_, rfl, .single (.set hb ?_)⟩
      split
      · exact .skipped script
      · exact .dispatched script
  | finish hf =>
      obtain ⟨p, e, hb, -, rfl⟩ := finish?_eq_some hf
      exact Or.inr ⟨_, rfl, .single (.set hb (.ended p e))⟩
  | @join _ f' _ i hf =>
      obtain ⟨e, hb, rfl⟩ := join?_eq_some hf
      have hjoin : Lowers (Branch.Sinks config) (f.branches.set i (.joined e.outcome)) f.branches :=
        .set hb (.joined e e.outcome)
      refine Or.inr ⟨_, rfl, ?_⟩
      split
      · exact .tail' (Lowers.map Branch.cancel_sinks) hjoin
      · exact .single hjoin
  | collect => exact Or.inl ⟨_, rfl⟩
  | branch hi hp => exact Or.inr ⟨_, rfl, .single (.set hi (.moved hp))⟩

theorem acc_fan (hbranches : ∀ b ∈ f.branches, Acc (Branch.Sinks config) b)
    (hnext : ∀ outcomes, Acc (Process.Next config) (.line (next outcomes))) :
    Acc (Process.Next config) (.fan f next) := by
  have hlist : Acc (Relation.TransGen (Lowers (Branch.Sinks config))) f.branches :=
    (Lowers.acc_of_items hbranches).transGen
  clear hbranches
  generalize hb : f.branches = bs at hlist
  induction hlist generalizing f with
  | intro bs _ ih =>
      subst hb
      refine ⟨_, fun q ⟨h, hm⟩ => ?_⟩
      rcases lowers_of_moves hm with ⟨outcomes, rfl⟩ | ⟨f', rfl, hlower⟩
      · exact hnext outcomes
      · exact ih _ hlower rfl

end Fan

/-- No task goes on for ever. -/
theorem Script.acc_next (config : FanoutConfig) (s : Script A R β) :
    Acc (Process.Next config) (.line s) := by
  induction s with
  | ret r => exact ⟨_, fun q ⟨_, hm⟩ => by cases hm⟩
  | crash => exact ⟨_, fun q ⟨_, hm⟩ => by cases hm⟩
  | act a next ih =>
      refine ⟨_, fun q ⟨_, hm⟩ => ?_⟩
      cases hm with
      | act _ _ reply => exact ih reply
  | pause ms next ih =>
      refine ⟨_, fun q ⟨_, hm⟩ => ?_⟩
      cases hm with
      | pause => exact ih
  | fork scripts next ihs ih =>
      refine ⟨_, fun q ⟨_, hm⟩ => ?_⟩
      cases hm with
      | fork =>
          refine Fan.acc_fan (fun b hb => ?_) ih
          obtain ⟨script, hs, rfl⟩ := List.mem_map.mp hb
          exact Branch.acc_waiting (ihs script hs)

/-! ## Progress -/

/-- Some move is possible. -/
def Process.CanMove (config : FanoutConfig) (perform : (a : A) → W → R a × W)
    (p : Process A R β) (w : W) : Prop :=
  ∃ path m, (p.move? config perform path m w).isSome = true

variable {perform : (a : A) → W → R a × W} {w : W}
  {f : Fan (Process A R β) (Script A R β) β} {next : List (BranchOutcome β) → Script A R β}

theorem Process.CanMove.branch {i : Nat} {p : Process A R β}
    (hi : f.branches[i]? = some (.active p)) (hp : p.CanMove config perform w) :
    (Process.fan f next).CanMove config perform w := by
  obtain ⟨path, m, hm⟩ := hp
  refine ⟨i :: path, m, ?_⟩
  rw [Process.move?, Process.changeAt?, hi]
  simpa [Process.move?] using hm

theorem Fan.can_join {i : Nat} {e : Ending β} (hi : f.branches[i]? = some (.ended e)) :
    (Process.fan f next).CanMove config perform w :=
  ⟨[], .join i, by simp [Process.move?, Process.changeAt?, Process.step?, Fan.join?, hi]⟩

theorem Fan.can_finish {i : Nat} {p : Process A R β} (hi : f.branches[i]? = some (.active p))
    {e : Ending β} (he : p.ending? = some e) : (Process.fan f next).CanMove config perform w :=
  ⟨[], .finish i,
    by simp [Process.move?, Process.changeAt?, Process.step?, Fan.finish?, hi, he]⟩

/-- When no branch is active all permits are free. -/
theorem Fan.can_dispatch {i : Nat} {script : Script A R β}
    (hi : f.branches[i]? = some (.waiting script))
    (hidle : ∀ b ∈ f.branches, b.isActive = false) :
    (Process.fan f next).CanMove config perform w := by
  have huse : f.inUse = 0 := List.countP_eq_zero.mpr fun b hb => by simp [hidle b hb]
  have hpermit : f.hasPermit config.maxConcurrency = true := by
    unfold Fan.hasPermit
    split
    · rfl
    · simp only [huse, decide_eq_true_eq]
      omega
  exact ⟨[], .dispatch i, by
    simp [Process.move?, Process.changeAt?, Process.step?, Fan.dispatch?, hi, hpermit]⟩

theorem Fan.can_collect (hjoined : ∀ b ∈ f.branches, b.outcome?.isSome = true) :
    (Process.fan f next).CanMove config perform w := by
  have hsome : f.outcomes?.isSome = true := by
    unfold Fan.outcomes?
    generalize f.branches = bs at hjoined
    induction bs with
    | nil => rfl
    | cons b bs ih =>
        obtain ⟨o, ho⟩ := Option.isSome_iff_exists.mp (hjoined b (List.mem_cons_self ..))
        obtain ⟨os, hos⟩ := Option.isSome_iff_exists.mp
          (ih fun b' hb' => hjoined b' (List.mem_cons_of_mem _ hb'))
        simp [List.mapM_cons, ho, hos]
  exact ⟨[], .collect, by simpa [Process.move?, Process.changeAt?, Process.step?] using hsome⟩

/-- A fan of which the active branches are not stuck is not stuck. -/
theorem Fan.can_move (hactive : ∀ (i : Nat) (p : Process A R β),
      f.branches[i]? = some (.active p) → p.ending? = none → p.CanMove config perform w) :
    (Process.fan f next).CanMove config perform w := by
  by_cases hrun : ∃ (i : Nat) (p : Process A R β), f.branches[i]? = some (.active p)
  · obtain ⟨i, p, hi⟩ := hrun
    cases he : p.ending? with
    | some e => exact can_finish hi he
    | none => exact .branch hi (hactive i p hi he)
  · by_cases hend : ∃ (i : Nat) (e : Ending β), f.branches[i]? = some (.ended e)
    · obtain ⟨i, e, hi⟩ := hend
      exact can_join hi
    · by_cases hwait : ∃ (i : Nat) (script : Script A R β), f.branches[i]? = some (.waiting script)
      · obtain ⟨i, script, hi⟩ := hwait
        refine can_dispatch hi fun b hb => ?_
        obtain ⟨j, hj⟩ := List.mem_iff_getElem?.mp hb
        cases b with
        | active p => exact absurd ⟨j, p, hj⟩ hrun
        | waiting | ended | joined => rfl
      · refine can_collect fun b hb => ?_
        obtain ⟨j, hj⟩ := List.mem_iff_getElem?.mp hb
        cases b with
        | active p => exact absurd ⟨j, p, hj⟩ hrun
        | ended e => exact absurd ⟨j, e, hj⟩ hend
        | waiting s => exact absurd ⟨j, s, hj⟩ hwait
        | joined o => rfl

/-- Whatever a script reaches has ended or can move, in any world. -/
theorem Script.Reaches.can_move {policy : FailurePolicy} {s : Script A R β} {h : History A R}
    {p : Process A R β} (hr : s.Reaches policy h p) (hend : p.ending? = none) :
    p.CanMove config perform w := by
  induction hr with
  | start s =>
      cases s with
      | ret r => cases hend
      | crash => cases hend
      | act a next => exact ⟨[], .act, rfl⟩
      | pause ms next => exact ⟨[], .act, rfl⟩
      | fork scripts next => exact ⟨[], .fork, rfl⟩
  | act _ ih => exact ih hend
  | pause _ ih => exact ih hend
  | fork stands _ ih =>
      refine Fan.can_move fun i p hi he => ?_
      obtain ⟨script, hs, hshow⟩ := stands.at_branch hi
      exact ih i script p hs (by rw [Fate.shows_active hshow]; rfl) he
  | collect _ _ _ _ _ ih => exact ih hend

end Ensemble
