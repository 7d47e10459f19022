import Ensemble.Time.Instant
import Mathlib.Data.Prod.Lex
import Mathlib.Order.Bounds.Basic
import Mathlib.Order.Defs.LinearOrder

/-!
# Instants in order

Instants are ordered by their fields, the largest unit first, so their
order is that of a lexicographic product (`lt_iff_key_lt`), and what is
known of such orders holds of instants. One that is put forward by every
later one is the greatest of all that it has seen (`isGreatest_concat`).

The next microsecond is always later (`lt_nextMicrosecond`): a step of the
clock starts smaller units again only when it goes on to a larger one. That
the date is one of the calendar is not needed.
-/

namespace Ensemble.Instant

/-- The fields from the largest unit to the smallest one. -/
def key (t : Instant) : Int ×ₗ Nat ×ₗ Nat ×ₗ Nat ×ₗ Nat ×ₗ Nat ×ₗ Nat :=
  toLex (t.year, toLex (t.month, toLex (t.day, toLex (t.hour, toLex (t.minute,
    toLex (t.second, t.nano))))))

variable {s t u : Instant}

theorem lt_iff_key_lt : s < t ↔ s.key < t.key := by
  change s.before t = true ↔ _
  simp [before, key, Prod.Lex.toLex_lt_toLex]

theorem key_injective : Function.Injective key := by
  intro s t h
  obtain ⟨⟩ := s
  obtain ⟨⟩ := t
  simpa [key] using h

instance : LinearOrder Instant where
  le s t := s.key ≤ t.key
  le_refl s := le_refl s.key
  le_trans _ _ _ := le_trans
  le_antisymm _ _ hst hts := key_injective (le_antisymm hst hts)
  le_total s t := le_total s.key t.key
  lt_iff_le_not_ge _ _ := lt_iff_key_lt.trans lt_iff_le_not_ge
  toDecidableLE s t := inferInstanceAs (Decidable (s.key ≤ t.key))
  toDecidableLT s t := inferInstanceAs (Decidable (s < t))

theorem latest_eq_max (s t : Instant) : s.latest t = max s t := by
  rw [latest, max_def_lt]

theorem earliest_eq_min (s t : Instant) : s.earliest t = min s t := by
  rw [earliest, min_comm, min_def_lt]

theorem setOf_mem_concat (ts : List Instant) (u : Instant) :
    {t | t ∈ ts ++ [u]} = insert u {t | t ∈ ts} := by
  ext t
  simp [or_comm]

theorem isGreatest_concat {ts : List Instant} (h : IsGreatest {t | t ∈ ts} s) (u : Instant) :
    IsGreatest {t | t ∈ ts ++ [u]} (s.latest u) := by
  rw [setOf_mem_concat, latest_eq_max, max_comm]
  exact h.insert u

theorem isLeast_concat {ts : List Instant} (h : IsLeast {t | t ∈ ts} s) (u : Instant) :
    IsLeast {t | t ∈ ts ++ [u]} (s.earliest u) := by
  rw [setOf_mem_concat, earliest_eq_min, min_comm]
  exact h.insert u

protected theorem lt_of_eq_or_lt (hst : s = t ∨ s < t) (htu : t < u) : s < u :=
  lt_of_le_of_lt (le_iff_eq_or_lt.mpr hst) htu

/-! ## Steps -/

/-- The day of `t` is before that of `u`. -/
def DayBefore (t u : Instant) : Prop :=
  t.year < u.year ∨ t.year = u.year ∧
    (t.month < u.month ∨ t.month = u.month ∧ t.day < u.day)

theorem DayBefore.lt (h : DayBefore t u) : t < u := by
  change t.before u = true
  rcases h with hyear | ⟨hyear, hmonth | ⟨hmonth, hday⟩⟩
  · simp [before, hyear]
  · simp [before, hyear, hmonth]
  · simp [before, hyear, hmonth, hday]

theorem dayBefore_nextDay (t : Instant) : DayBefore t t.nextDay := by
  unfold nextDay
  split
  · exact Or.inr ⟨rfl, Or.inr ⟨rfl, Nat.lt_succ_self _⟩⟩
  · split
    · exact Or.inr ⟨rfl, Or.inl (Nat.lt_succ_self _)⟩
    · exact Or.inl (Int.lt_succ _)

/-- The next second is later, with any part of it. -/
theorem lt_nextSecond (t : Instant) (nano : Nat) : t < { t with nano }.nextSecond := by
  unfold nextSecond
  split
  · change t.before _ = true
    simp [before]
  · split
    · change t.before _ = true
      simp [before]
    · split
      · change t.before _ = true
        simp [before]
      · -- on the next day the time of day does not count
        have hday : DayBefore t { t with hour := 0, minute := 0, second := 0, nano }.nextDay :=
          dayBefore_nextDay { t with hour := 0, minute := 0, second := 0, nano }
        exact hday.lt

theorem lt_nextMicrosecond (t : Instant) : t < t.nextMicrosecond := by
  unfold nextMicrosecond
  generalize (if t.nano < 1000000000 then 1000000000 else 2000000000) = size
  dsimp only
  split
  · change t.before _ = true
    simp [before]
  · exact lt_nextSecond t _

end Ensemble.Instant
