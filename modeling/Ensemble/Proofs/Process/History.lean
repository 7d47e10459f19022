import Ensemble.Process.Basic
import Mathlib.Data.List.Dedup

/-!
# Histories

The `History` of a process lists the acts that were performed, each with
its reply and the path of the task that performed it. `History.below` is
the part of one branch of a fork, `History.under` puts it back in place,
and `History.of` is what a single task has performed. Taken together the
tasks have performed all there is, in another order (`perm_of_tasks`).
-/

namespace Ensemble

/-- An act and the reply that it got. -/
structure Exchange (A : Type) (R : A → Type) where
  act : A
  reply : R act

/-- Acts in the order in which they were performed, each with the path of
the task that performed it. -/
abbrev History (A : Type) (R : A → Type) := List (List Nat × Exchange A R)

namespace History

variable {A : Type} {R : A → Type}

/-- What was performed in a branch of the outermost fork. -/
def below (i : Nat) (h : History A R) : History A R :=
  h.filterMap fun x =>
    match x.1 with
    | [] => none
    | j :: path => if j = i then some (path, x.2) else none

/-- A history as it looks from outside of a branch. -/
def under (i : Nat) (h : History A R) : History A R := h.map fun x => (i :: x.1, x.2)

/-- What one task performed itself, outside of all branches. -/
def own (xs : List (Exchange A R)) : History A R := xs.map fun x => ([], x)

/-- Everything was performed in one of the first `n` branches. -/
def Within (n : Nat) (h : History A R) : Prop := ∀ x ∈ h, ∃ i < n, ∃ path, x.1 = i :: path

@[simp] theorem below_nil (i : Nat) : below i ([] : History A R) = [] := rfl

@[simp] theorem below_append (i : Nat) (h h' : History A R) :
    below i (h ++ h') = below i h ++ below i h' :=
  List.filterMap_append

@[simp] theorem below_cons_same (i : Nat) (path : List Nat) (x : Exchange A R) (h : History A R) :
    below i ((i :: path, x) :: h) = (path, x) :: below i h := by
  simp [below]

theorem below_cons_ne {i j : Nat} (hij : j ≠ i) (path : List Nat) (x : Exchange A R)
    (h : History A R) : below i ((j :: path, x) :: h) = below i h := by
  simp [below, hij]

@[simp] theorem below_under_same (i : Nat) (h : History A R) : below i (under i h) = h := by
  induction h with
  | nil => rfl
  | cons x h ih =>
      obtain ⟨path, x⟩ := x
      simpa [under] using ih

theorem below_under_ne {i j : Nat} (hij : j ≠ i) (h : History A R) : below i (under j h) = [] := by
  induction h with
  | nil => rfl
  | cons x h ih => exact (below_cons_ne hij x.1 x.2 _).trans ih

@[simp] theorem below_own (i : Nat) (xs : List (Exchange A R)) : below i (own xs) = [] := by
  induction xs with
  | nil => rfl
  | cons x xs ih => exact ih

theorem own_append (xs ys : List (Exchange A R)) : own (xs ++ ys) = own xs ++ own ys :=
  List.map_append

theorem within_nil (n : Nat) : Within n ([] : History A R) := by simp [Within]

theorem Within.append {n : Nat} {h h' : History A R} (hw : Within n h) (hw' : Within n h') :
    Within n (h ++ h') := fun x hx => (List.mem_append.mp hx).elim (hw x) (hw' x)

theorem within_under {n i : Nat} (hi : i < n) (h : History A R) : Within n (under i h) := by
  intro x hx
  obtain ⟨y, -, rfl⟩ := List.mem_map.mp hx
  exact ⟨i, hi, y.1, rfl⟩

theorem Within.tail {n : Nat} {x : List Nat × Exchange A R} {h : History A R}
    (hw : Within n (x :: h)) : Within n h := fun y hy => hw y (List.mem_cons_of_mem _ hy)

/-- A member of a branch's part is a member of the whole. -/
theorem mem_below {i : Nat} {path : List Nat} {x : Exchange A R} {h : History A R} :
    (path, x) ∈ below i h ↔ (i :: path, x) ∈ h := by
  induction h with
  | nil => simp
  | cons y h ih =>
      obtain ⟨ypath, y⟩ := y
      cases ypath with
      | nil => simpa [below] using ih
      | cons j ypath =>
          by_cases hij : j = i
          · subst hij
            rw [below_cons_same, List.mem_cons, List.mem_cons, ih]
            simp
          · rw [below_cons_ne hij, ih, List.mem_cons]
            simp [Ne.symm hij]

/-- What the task at a path performed itself. -/
def of (task : List Nat) (h : History A R) : List (Exchange A R) :=
  h.filterMap fun x => if x.1 = task then some x.2 else none

@[simp] theorem of_nil (task : List Nat) : of task ([] : History A R) = [] := rfl

@[simp] theorem of_append (task : List Nat) (h h' : History A R) :
    of task (h ++ h') = of task h ++ of task h' := List.filterMap_append

@[simp] theorem of_own_root (xs : List (Exchange A R)) : of [] (own xs) = xs := by
  induction xs with
  | nil => rfl
  | cons x xs ih => exact congrArg (x :: ·) ih

@[simp] theorem of_own_branch (i : Nat) (path : List Nat) (xs : List (Exchange A R)) :
    of (i :: path) (own xs) = [] := by
  induction xs with
  | nil => rfl
  | cons x xs ih => exact ih

theorem of_below (i : Nat) (path : List Nat) (h : History A R) :
    of path (below i h) = of (i :: path) h := by
  induction h with
  | nil => rfl
  | cons x h ih =>
      obtain ⟨task, x⟩ := x
      cases task with
      | nil => exact ih
      | cons j task =>
          by_cases hij : j = i
          · subst hij
            rw [below_cons_same]
            simp only [of, List.filterMap_cons, List.cons.injEq, true_and] at ih ⊢
            rw [ih]
          · rw [below_cons_ne hij, ih]
            simp [of, hij]

theorem Within.of_root {n : Nat} {h : History A R} (hw : Within n h) : of [] h = [] := by
  refine List.filterMap_eq_nil_iff.mpr fun x hx => ?_
  obtain ⟨i, -, path, hpath⟩ := hw x hx
  rw [hpath]
  rfl

theorem mem_of {task : List Nat} {x : Exchange A R} {h : History A R} :
    x ∈ of task h ↔ (task, x) ∈ h := by
  constructor
  · intro hx
    obtain ⟨⟨path, y⟩, hy, heq⟩ := List.mem_filterMap.mp hx
    split at heq
    · rename_i hpath
      obtain rfl : path = task := hpath
      exact Option.some.inj heq ▸ hy
    · cases heq
  · exact fun hx => List.mem_filterMap.mpr ⟨_, hx, if_pos rfl⟩

theorem forall_mem_own {xs : List (Exchange A R)} {P : Exchange A R → Prop}
    (hP : ∀ x ∈ xs, P x) : ∀ x ∈ own xs, P x.2 := List.forall_mem_map.mpr hP

/-! ## What is read off a history -/

theorem filterMap_own {γ : Type} (f : Exchange A R → Option γ) (xs : List (Exchange A R)) :
    (own xs).filterMap (fun x => f x.2) = xs.filterMap f := List.filterMap_map

/-- What only one branch has performed is read off that branch. -/
theorem Within.filterMap_below {γ : Type} {f : Exchange A R → Option γ} {n i : Nat}
    {h : History A R} (hw : Within n h)
    (hothers : ∀ j < n, j ≠ i → ∀ x ∈ h.below j, f x.2 = none) :
    h.filterMap (fun x => f x.2) = (h.below i).filterMap fun x => f x.2 := by
  induction h with
  | nil => rfl
  | cons x h ih =>
      obtain ⟨j, hj, path, hpath⟩ := hw x (List.mem_cons_self ..)
      obtain ⟨task, x⟩ := x
      obtain rfl : task = j :: path := hpath
      have hrest : h.filterMap (fun x => f x.2) = (below i h).filterMap fun x => f x.2 :=
        ih hw.tail fun k hk hne y hy => hothers k hk hne y <|
          mem_below.mpr (List.mem_cons_of_mem _ (mem_below.mp hy))
      by_cases hij : j = i
      · subst hij
        rw [below_cons_same, List.filterMap_cons, List.filterMap_cons, hrest]
      · have hnone : f x = none :=
          hothers j hj hij (path, x) (mem_below.mpr (List.mem_cons_self ..))
        rw [below_cons_ne hij, List.filterMap_cons, hnone, hrest]

/-! ## All tasks together -/

/-- The tasks that have performed something. -/
def tasks (h : History A R) : List (List Nat) := (h.map Prod.fst).dedup

theorem filterMap_of {γ : Type} (f : Exchange A R → Option γ) (task : List Nat) (h : History A R) :
    (h.of task).filterMap f = (h.filter fun x => x.1 = task).filterMap fun x => f x.2 := by
  induction h with
  | nil => rfl
  | cons x h ih =>
      by_cases hx : x.1 = task
      · have hof : of task (x :: h) = x.2 :: of task h := List.filterMap_cons_some (if_pos hx)
        rw [hof, List.filter_cons_of_pos (by simpa using hx), List.filterMap_cons,
          List.filterMap_cons, ih]
      · have hof : of task (x :: h) = of task h := List.filterMap_cons_none (if_neg hx)
        rw [hof, List.filter_cons_of_neg (by simpa using hx), ih]

/-- The parts of some tasks, taken together. -/
theorem perm_tasks {γ : Type} (f : Exchange A R → Option γ) (h : History A R)
    {ts : List (List Nat)} (hnodup : ts.Nodup) :
    ((h.filter fun x => x.1 ∈ ts).filterMap fun x => f x.2).Perm
      (ts.flatMap fun task => (h.of task).filterMap f) := by
  induction ts with
  | nil => simp
  | cons t ts ih =>
      obtain ⟨ht, hnodup⟩ := List.nodup_cons.mp hnodup
      have hsplit := List.filter_append_perm (fun x => decide (x.1 = t))
        (h.filter fun x => x.1 ∈ t :: ts)
      have hfirst : (h.filter fun x => x.1 ∈ t :: ts).filter (fun x => decide (x.1 = t))
          = h.filter fun x => x.1 = t := by
        rw [List.filter_filter]
        refine List.filter_congr fun x _ => ?_
        by_cases hx : x.1 = t <;> simp [hx]
      have hothers : (h.filter fun x => x.1 ∈ t :: ts).filter (fun x => !decide (x.1 = t))
          = h.filter fun x => x.1 ∈ ts := by
        rw [List.filter_filter]
        refine List.filter_congr fun x _ => ?_
        by_cases hx : x.1 = t
        · simp [hx, ht]
        · simp [hx]
      rw [hfirst, hothers] at hsplit
      refine (hsplit.symm.filterMap _).trans ?_
      rw [List.filterMap_append, ← filterMap_of, List.flatMap_cons]
      exact (ih hnodup).append_left _

theorem perm_of_tasks {γ : Type} {f : Exchange A R → Option γ} {g : List Nat → List γ}
    {h : History A R} (hfg : ∀ task, (h.of task).filterMap f = g task) :
    (h.filterMap fun x => f x.2).Perm (h.tasks.flatMap g) := by
  have hall : (h.filter fun x => x.1 ∈ h.tasks) = h :=
    List.filter_eq_self.mpr fun x hx =>
      decide_eq_true (List.mem_dedup.mpr (List.mem_map_of_mem hx))
  have hperm := perm_tasks f h (List.nodup_dedup (h.map Prod.fst))
  rw [← tasks, hall] at hperm
  rwa [funext hfg] at hperm

end History

end Ensemble
