import Ensemble.Proofs.Process.History
import Mathlib.Algebra.BigOperators.Fin

/-!
# Counting acts

How many acts of a kind a history has, and what its exchanges come to, added
up. Nothing is counted twice: what the branches of a fork have performed adds
up (`Within.sum_total`, `Within.sum_below`).
-/

namespace Ensemble.History

variable {A : Type} {R : A → Type} {p : A → Bool} {h h' : History A R}

/-- How many acts a history has that are counted. -/
def count (p : A → Bool) (h : History A R) : Nat := h.countP fun x => p x.2.act

@[simp] theorem count_nil (p : A → Bool) : count p ([] : History A R) = 0 := rfl

@[simp] theorem count_append (p : A → Bool) (h h' : History A R) :
    count p (h ++ h') = count p h + count p h' := List.countP_append

theorem count_cons (p : A → Bool) (x : List Nat × Exchange A R) (h : History A R) :
    count p (x :: h) = (p x.2.act).toNat + count p h := by
  rw [count, List.countP_cons, Nat.add_comm]
  cases p x.2.act <;> rfl

theorem count_own (p : A → Bool) (xs : List (Exchange A R)) :
    count p (own xs) = xs.countP fun x => p x.act := List.countP_map ..

theorem count_eq_zero (h0 : ∀ x ∈ h, p x.2.act = false) : count p h = 0 :=
  List.countP_eq_zero.mpr fun x hx => Bool.eq_false_iff.mp (h0 x hx)

/-! ## Totals -/

section Total

variable {M : Type} [AddCommMonoid M] {f g : Exchange A R → M}

/-- What all exchanges come to, added up. -/
def total (f : Exchange A R → M) (h : History A R) : M := (h.map fun x => f x.2).sum

@[simp] theorem total_nil : total f ([] : History A R) = 0 := rfl

theorem total_cons (f : Exchange A R → M) (x : List Nat × Exchange A R) (h : History A R) :
    total f (x :: h) = f x.2 + total f h := List.sum_cons

@[simp] theorem total_append (f : Exchange A R → M) (h h' : History A R) :
    total f (h ++ h') = total f h + total f h' := by
  rw [total, List.map_append, List.sum_append]
  rfl

theorem total_own (f : Exchange A R → M) (xs : List (Exchange A R)) :
    total f (own xs) = (xs.map f).sum := congrArg List.sum (List.map_map ..)

theorem total_congr (hfg : ∀ x ∈ h, f x.2 = g x.2) : total f h = total g h :=
  congrArg List.sum (List.map_congr_left hfg)

theorem total_eq_zero (h0 : ∀ x ∈ h, f x.2 = 0) : total f h = 0 :=
  List.sum_eq_zero fun y hy => by
    obtain ⟨x, hx, rfl⟩ := List.mem_map.mp hy
    exact h0 x hx

theorem total_below_cons (f : Exchange A R → M) (i j : Nat) (path : List Nat) (x : Exchange A R)
    (h : History A R) :
    total f (below i ((j :: path, x) :: h)) = (if i = j then f x else 0) + total f (below i h) := by
  by_cases hij : i = j
  · subst hij
    rw [below_cons_same, total_cons, if_pos rfl]
  · rw [below_cons_ne (Ne.symm hij), if_neg hij, zero_add]

/-- What the branches of a fork come to adds up. -/
theorem Within.sum_total {n : Nat} (hw : h.Within n) :
    ∑ i : Fin n, total f (h.below i) = total f h := by
  rw [← Finset.sum_range fun i => total f (h.below i)]
  induction h with
  | nil => simp
  | cons x h ih =>
      obtain ⟨j, hj, path, hpath⟩ := hw x (List.mem_cons_self ..)
      obtain ⟨task, x⟩ := x
      obtain rfl : task = j :: path := hpath
      simp only [total_below_cons, Finset.sum_add_distrib, ih hw.tail, total_cons]
      rw [Finset.sum_ite_eq', if_pos (Finset.mem_range.mpr hj)]

end Total

theorem count_eq_total (p : A → Bool) (h : History A R) :
    count p h = total (fun x => (p x.act).toNat) h := by
  induction h with
  | nil => rfl
  | cons x h ih => rw [count_cons, total_cons, ih]

theorem Within.sum_below {n : Nat} (hw : h.Within n) :
    ∑ i : Fin n, count p (h.below i) = count p h := by
  simp only [count_eq_total]
  exact hw.sum_total

/-- A relation of numbers that holds of sums if it holds of what is added. -/
structure Additive (R : Nat → Nat → Prop) : Prop where
  zero : R 0 0
  add : ∀ {a b c d}, R a b → R c d → R (a + c) (b + d)

theorem additive_eq : Additive (· = ·) := ⟨rfl, congrArg₂ (· + ·)⟩

theorem additive_le : Additive (· ≤ ·) := ⟨Nat.le_refl 0, Nat.add_le_add⟩

/-- What each branch has performed, added up. -/
theorem Within.count_sum {ι : Type} {items : List ι} {f : ι → Nat} {R : Nat → Nat → Prop}
    (hR : Additive R) (hw : h.Within items.length)
    (hbranch : ∀ (i : Nat) (a : ι), items[i]? = some a → R (count p (h.below i)) (f a)) :
    R (count p h) (items.map f).sum := by
  rw [← hw.sum_below, ← Fin.sum_univ_fun_getElem]
  exact Finset.sum_hom_rel hR.zero fun i _ _ hrest =>
    hR.add (hbranch i _ (List.getElem?_eq_getElem i.2)) hrest

end Ensemble.History
