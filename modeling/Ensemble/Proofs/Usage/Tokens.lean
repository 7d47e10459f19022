import Ensemble.Usage.Tokens
import Mathlib.Algebra.Ring.Nat
import Mathlib.Data.List.Induction
import Mathlib.Data.List.Perm.Basic

/-!
# Sums of tokens

Counts that stay at their largest value still add up like numbers: in any
order and in any grouping. So the sum of the usages of some answers can be
read off any list of them (`Tokens.sum_perm`), and a total that grows by
one usage after the other grows by their sum (`Tokens.foldl_add`). Each of
its counts is the true sum, as far as a count goes (`Tokens.toNat_sum`).
-/

namespace Ensemble

theorem toNat_saturatingAdd (a b : UInt64) :
    (saturatingAdd a b).toNat = min (a.toNat + b.toNat) (UInt64.size - 1) := by
  have hlt : min (a.toNat + b.toNat) (UInt64.size - 1) < 2 ^ 64 := by
    rw [UInt64.size]
    omega
  rw [saturatingAdd, UInt64.toNat_ofNat', Nat.mod_eq_of_lt hlt]

theorem saturatingAdd_comm (a b : UInt64) : saturatingAdd a b = saturatingAdd b a := by
  rw [saturatingAdd, saturatingAdd, Nat.add_comm]

theorem le_saturatingAdd (a b : UInt64) : a ≤ saturatingAdd a b := by
  have hlt : a.toNat < UInt64.size := a.toNat_lt
  rw [UInt64.le_iff_toNat_le, toNat_saturatingAdd]
  omega

/-- Once a part of a sum has reached the largest count, so has the sum. -/
theorem saturatingAdd_assoc (a b c : UInt64) :
    saturatingAdd (saturatingAdd a b) c = saturatingAdd a (saturatingAdd b c) := by
  apply UInt64.toNat_inj.mp
  simp only [toNat_saturatingAdd]
  omega

theorem zero_saturatingAdd (a : UInt64) : saturatingAdd 0 a = a := by
  apply UInt64.toNat_inj.mp
  have hlt := a.toNat_lt
  rw [toNat_saturatingAdd, UInt64.toNat_zero, UInt64.size]
  omega

/-- A count that has been a true sum, as far as a count goes, is one again with one more part. -/
theorem toNat_saturatingAdd_of_sum {a b : UInt64} {parts : List Nat}
    (h : a.toNat = min parts.sum (UInt64.size - 1)) :
    (saturatingAdd a b).toNat = min (parts ++ [b.toNat]).sum (UInt64.size - 1) := by
  rw [toNat_saturatingAdd, h, List.sum_append, List.sum_singleton]
  omega

namespace Tokens

protected theorem add_comm (a b : Tokens) : a + b = b + a :=
  congrArg₂ Tokens.mk (saturatingAdd_comm ..) (saturatingAdd_comm ..)

protected theorem add_assoc (a b c : Tokens) : a + b + c = a + (b + c) :=
  congrArg₂ Tokens.mk (saturatingAdd_assoc ..) (saturatingAdd_assoc ..)

protected theorem zero_add (a : Tokens) : zero + a = a :=
  congrArg₂ Tokens.mk (zero_saturatingAdd _) (zero_saturatingAdd _)

protected theorem add_zero (a : Tokens) : a + zero = a := by
  rw [Tokens.add_comm, Tokens.zero_add]

/-- A total that grows by one usage after the other. -/
theorem foldl_add (t : Tokens) (xs : List Tokens) : xs.foldl add t = t + sum xs := by
  induction xs generalizing t with
  | nil => exact (Tokens.add_zero t).symm
  | cons x xs ih =>
      calc xs.foldl add (t + x) = t + x + sum xs := ih (t + x)
        _ = t + (zero + x + sum xs) := by rw [Tokens.zero_add, Tokens.add_assoc]
        _ = t + sum (x :: xs) := by rw [← ih (zero + x)]; rfl

theorem sum_append (xs ys : List Tokens) : sum (xs ++ ys) = sum xs + sum ys := by
  rw [sum, List.foldl_append, foldl_add]
  rfl

@[simp] theorem sum_singleton (x : Tokens) : sum [x] = x := Tokens.zero_add x

/-- The counts of a sum are the true sums of these counts, or the largest count. -/
theorem toNat_sum (xs : List Tokens) :
    (sum xs).prompt.toNat = min (xs.map fun x => x.prompt.toNat).sum (UInt64.size - 1) ∧
    (sum xs).completion.toNat
      = min (xs.map fun x => x.completion.toNat).sum (UInt64.size - 1) := by
  induction xs using List.reverseRecOn with
  | nil => exact ⟨rfl, rfl⟩
  | append_singleton xs x ih =>
      rw [sum_append, sum_singleton, List.map_append, List.map_append]
      exact ⟨toNat_saturatingAdd_of_sum ih.1, toNat_saturatingAdd_of_sum ih.2⟩

theorem sum_perm {xs ys : List Tokens} (h : xs.Perm ys) : sum xs = sum ys := by
  have hswap : RightCommutative add := ⟨fun a b c => by
    change a + b + c = a + c + b
    rw [Tokens.add_assoc, Tokens.add_comm b, ← Tokens.add_assoc]⟩
  exact h.foldl_eq zero

end Tokens

end Ensemble
