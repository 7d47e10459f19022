import Ensemble.Decimal.Notation
import Ensemble.Decimal.Reading
import Ensemble.Time.Instant
import Mathlib.Algebra.Group.Nat.Defs

/-!
# Digits read back

The digits of a number stand for that number, also when zeros are put
before them (`ofDigits_natural`, `ofDigits_padded`); and a text that starts
with digits can be cut where they end, if no digit follows
(`takeWhile_digits`).
-/

namespace Ensemble.Decimal

theorem ofDigits_eq (cs : List Char) : ofDigits cs = Nat.ofDigitChars 10 cs 0 := by
  rw [Nat.ofDigitChars_eq_foldl, ofDigits]
  refine congrArg (fun f => List.foldl f 0 cs) (funext fun n => funext fun c => ?_)
  rw [Nat.mul_comm]
  rfl

@[simp] theorem ofDigits_natural (n : Nat) : ofDigits (natural n) = n := by
  rw [ofDigits_eq]
  exact Nat.ofDigitChars_ten_toDigits

theorem isDigit_of_natural {n : Nat} {c : Char} (hc : c ∈ natural n) : c.isDigit = true :=
  Nat.isDigit_of_mem_toDigits (by decide) (by decide) hc

theorem natural_ne_nil (n : Nat) : natural n ≠ [] := Nat.toDigits_ne_nil

/-- Only the number zero starts with one. -/
theorem natural_head (n : Nat) : (natural n).head? = some '0' → natural n = ['0'] := by
  induction n using Nat.strongRecOn with
  | ind n ih =>
      have hdigits := Nat.toDigits_eq_if (b := 10) (n := n) (by decide)
      rw [natural, hdigits]
      split
      · intro hhead
        exact congrArg ([·]) (Option.some.inj hhead)
      · intro hhead
        have hrest : natural (n / 10) = ['0'] := by
          refine ih (n / 10) (by omega) ?_
          obtain ⟨c, cs, hcs⟩ := List.exists_cons_of_ne_nil (natural_ne_nil (n / 10))
          rw [natural] at hcs
          rw [hcs] at hhead
          rwa [natural, hcs]
        -- a number with more digits is at least ten
        have hzero := congrArg ofDigits hrest
        rw [ofDigits_natural] at hzero
        have hten : n / 10 = 0 := hzero
        omega

/-! ## Cutting digits off -/

variable {digits rest : List Char}

/-- A text that does not go on with a digit. -/
def EndsDigits (rest : List Char) : Prop := ∀ c, rest.head? = some c → c.isDigit = false

theorem takeWhile_digits (hdigits : ∀ c ∈ digits, c.isDigit = true) (hrest : EndsDigits rest) :
    (digits ++ rest).takeWhile Char.isDigit = digits := by
  rw [List.takeWhile_append_of_pos hdigits]
  cases rest with
  | nil => simp
  | cons c rest => simp [hrest c rfl]

theorem dropWhile_digits (hdigits : ∀ c ∈ digits, c.isDigit = true) (hrest : EndsDigits rest) :
    (digits ++ rest).dropWhile Char.isDigit = rest := by
  rw [List.dropWhile_append_of_pos hdigits]
  cases rest with
  | nil => rfl
  | cons c rest => simp [hrest c rfl]

/-! ## Padding -/

open Instant (padded)

theorem isDigit_of_padded {width n : Nat} {c : Char} (hc : c ∈ padded width n) :
    c.isDigit = true := by
  rcases List.mem_append.mp hc with hc | hc
  · rw [List.eq_of_mem_replicate hc]
    rfl
  · exact isDigit_of_natural hc

@[simp] theorem ofDigits_padded (width n : Nat) : ofDigits (padded width n) = n := by
  rw [padded, ofDigits_eq, Nat.ofDigitChars_append, Nat.ofDigitChars_replicate_zero, Nat.mul_zero]
  exact Nat.ofDigitChars_ten_toDigits

theorem length_padded {width n : Nat} (hwidth : 0 < width) (hn : n < 10 ^ width) :
    (padded width n).length = width := by
  have hlength : (natural n).length ≤ width :=
    (Nat.length_toDigits_le_iff (by decide) hwidth).mpr hn
  rw [padded, List.length_append, List.length_replicate]
  omega

theorem padded_ne_nil (width n : Nat) : padded width n ≠ [] := by
  simp [padded, natural_ne_nil]

end Ensemble.Decimal
