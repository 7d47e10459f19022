import Ensemble.Proofs.Decimal.Digits
import Ensemble.Time.Reading

/-!
# Instants read back

An instant of the years that need no sign is read back from its notation
to the nanosecond (`read?_render`). The reader takes the text apart from
the left: each part is some digits and the mark behind them, so one lemma
about digits that end (`digits?_append`) serves all of them, the fraction
of any length included.
-/

namespace Ensemble.Instant

/-- A date of the calendar in the years 0 to 9999 and a time of day outside of inserted seconds. -/
structure Ordinary (t : Instant) : Prop where
  year : 0 ≤ t.year ∧ t.year ≤ 9999
  month : 1 ≤ t.month ∧ t.month ≤ 12
  day : 1 ≤ t.day ∧ t.day ≤ Calendar.daysIn t.year t.month
  hour : t.hour ≤ 23
  minute : t.minute ≤ 59
  second : t.second ≤ 59
  nano : t.nano < 1000000000

instance (t : Instant) : Decidable t.Ordinary :=
  decidable_of_iff
    ((0 ≤ t.year ∧ t.year ≤ 9999) ∧ (1 ≤ t.month ∧ t.month ≤ 12) ∧
      (1 ≤ t.day ∧ t.day ≤ Calendar.daysIn t.year t.month) ∧ t.hour ≤ 23 ∧ t.minute ≤ 59 ∧
      t.second ≤ 59 ∧ t.nano < 1000000000)
    ⟨fun ⟨hy, hm, hd, hh, hmin, hs, hn⟩ => ⟨hy, hm, hd, hh, hmin, hs, hn⟩,
      fun ⟨hy, hm, hd, hh, hmin, hs, hn⟩ => ⟨hy, hm, hd, hh, hmin, hs, hn⟩⟩

theorem daysIn_le (year : Int) (month : Nat) : Calendar.daysIn year month ≤ 31 := by
  unfold Calendar.daysIn
  split
  · split <;> decide
  · split <;> decide

/-! ## Digits and marks -/

variable {rest : List Char}

open Decimal (EndsDigits)

/-- Digits are read up to the mark behind them. -/
theorem digits?_append {width : Nat} {ds : List Char} (hdigits : ∀ c ∈ ds, c.isDigit = true)
    (hsome : ds ≠ []) (hlength : ds.length ≤ width) (hrest : EndsDigits rest) :
    digits? width (ds ++ rest) = some (ds, rest) := by
  have hmark : EndsDigits (rest.take (width - ds.length)) := by
    intro c hc
    rw [List.head?_take] at hc
    split at hc
    · cases hc
    · exact hrest c hc
  have htaken : ((ds ++ rest).take width).takeWhile Char.isDigit = ds := by
    rw [List.take_append, List.take_of_length_le hlength]
    exact Decimal.takeWhile_digits hdigits hmark
  have hempty : ds.isEmpty = false := by simpa using hsome
  simp [digits?, htaken, hempty]

theorem isBlank_of_isDigit {c : Char} (hc : c.isDigit = true) : Text.isBlank c = false := by
  simp only [Char.isDigit, Bool.and_eq_true, decide_eq_true_eq] at hc
  have hlow : 48 ≤ c.toNat := UInt32.le_iff_toNat_le.mp hc.1
  have hhigh : c.toNat ≤ 57 := UInt32.le_iff_toNat_le.mp hc.2
  simp [Text.isBlank]
  omega

/-- Nothing is trimmed before digits. -/
theorem trimLeft_padded (width n : Nat) (rest : List Char) :
    Text.trimLeft (padded width n ++ rest) = padded width n ++ rest := by
  obtain ⟨c, cs, hcs⟩ := List.exists_cons_of_ne_nil (Decimal.padded_ne_nil width n)
  have hdigit : c.isDigit = true := Decimal.isDigit_of_padded (hcs ▸ List.mem_cons_self ..)
  simp [hcs, Text.trimLeft, isBlank_of_isDigit hdigit]

theorem digits?_padded {width size n : Nat} (hsize : 0 < size) (hn : n < 10 ^ size)
    (hwidth : size ≤ width) (hrest : EndsDigits rest) :
    digits? width (padded size n ++ rest) = some (padded size n, rest) := by
  refine digits?_append (fun c => Decimal.isDigit_of_padded) (Decimal.padded_ne_nil size n) ?_ hrest
  rwa [Decimal.length_padded hsize hn]

theorem number?_padded {n : Nat} (hn : n < 100) (hrest : EndsDigits rest) :
    number? 2 (padded 2 n ++ rest) = some (n, rest) := by
  rw [number?, trimLeft_padded, digits?_padded (by decide) hn (by decide) hrest]
  simp

theorem endsDigits_cons {c : Char} (hc : c.isDigit = false) : EndsDigits (c :: rest) := by
  intro d hd
  rwa [← Option.some.inj hd]

theorem after?_mark {mark : Char} (hmark : Text.isBlank mark = false) :
    after? mark (mark :: rest) = some rest := by
  simp [after?, Text.trimLeft, hmark]

/-! ## The parts -/

variable {t : Instant}

theorem year?_yearDigits (hyear : 0 ≤ t.year ∧ t.year ≤ 9999) (hrest : EndsDigits rest) :
    year? (yearDigits t.year ++ rest) = some (t.year, rest) := by
  obtain ⟨n, hn⟩ : ∃ n : Nat, t.year = n := ⟨t.year.toNat, by omega⟩
  have hsize : n < 10 ^ 4 := by omega
  have hread := digits?_padded (by decide) hsize (Nat.le_refl 4) hrest
  rw [yearDigits, if_pos hyear, year?, trimLeft_padded, hn, Int.toNat_natCast]
  obtain ⟨c, cs, hcs⟩ := List.exists_cons_of_ne_nil (Decimal.padded_ne_nil 4 n)
  have hdigit : c.isDigit = true := Decimal.isDigit_of_padded (hcs ▸ List.mem_cons_self ..)
  -- a digit is no sign
  split
  · rename_i heq
    rw [hcs] at heq
    obtain rfl := (List.cons.inj heq).1
    cases hdigit
  · rename_i heq
    rw [hcs] at heq
    obtain rfl := (List.cons.inj heq).1
    cases hdigit
  · simp [hread]

/-- A fraction of three, six or nine places, read to the nanosecond. -/
theorem nano?_places {size n : Nat} (hsize : 0 < size) (hwidth : size ≤ 9) (hn : n < 10 ^ size)
    (hrest : EndsDigits rest) :
    nano? ('.' :: (padded size n ++ rest)) = some (n * 10 ^ (9 - size), rest) := by
  rw [nano?, digits?_padded hsize hn hwidth hrest]
  have hdrop : ([] ++ rest).dropWhile Char.isDigit = rest :=
    Decimal.dropWhile_digits (by simp) hrest
  rw [List.nil_append] at hdrop
  simp [hdrop, Decimal.length_padded hsize hn]

theorem nano?_fraction (ht : t.nano < 1000000000) :
    nano? (t.fraction ++ ['Z']) = some (t.nano, ['Z']) := by
  have hmod : t.nano % 1000000000 = t.nano := Nat.mod_eq_of_lt ht
  have hends : EndsDigits ['Z'] := endsDigits_cons rfl
  simp only [fraction, hmod]
  split
  · rename_i hzero
    rw [hzero]
    rfl
  · split
    · rw [List.cons_append, nano?_places (by decide) (by decide) (by omega) hends]
      exact congrArg (fun n => some (n, ['Z'])) (by omega)
    · split
      · rw [List.cons_append, nano?_places (by decide) (by decide) (by omega) hends]
        exact congrArg (fun n => some (n, ['Z'])) (by omega)
      · rw [List.cons_append, nano?_places (by decide) (by decide) (by omega) hends]
        exact congrArg (fun n => some (n, ['Z'])) (by omega)

/-- UTC is no minutes ahead of itself. -/
theorem fromZone_zero (hhour : t.hour ≤ 23) (hminute : t.minute ≤ 59) : t.fromZone 0 = t := by
  have hminutes : ((t.hour * 60 + t.minute : Nat) - 0 : Int) % 1440
      = (t.hour * 60 + t.minute : Nat) := by omega
  have hlow : ¬ ((t.hour * 60 + t.minute : Nat) - 0 : Int) < 0 := by omega
  have hhigh : ¬ 1440 ≤ ((t.hour * 60 + t.minute : Nat) - 0 : Int) := by omega
  have hhours : (t.hour * 60 + t.minute) / 60 = t.hour := by omega
  have hrest : (t.hour * 60 + t.minute) % 60 = t.minute := by omega
  simp only [fromZone, hminutes, if_neg hlow, if_neg hhigh, Int.toNat_natCast, hhours, hrest]

theorem ofParts?_ordinary (ht : t.Ordinary) :
    ofParts? t.year t.month t.day t.hour t.minute t.second t.nano 0 = some t := by
  obtain ⟨⟨hfirst, hlast⟩, ⟨hmonth, hmonths⟩, ⟨hday, hdays⟩, hhour, hminute, hsecond, -⟩ := ht
  have hyear : ¬ t.year < Calendar.firstYear := by
    have : Calendar.firstYear = -262143 := rfl
    omega
  have hyears : ¬ Calendar.lastYear < t.year := by
    have : Calendar.lastYear = 262142 := rfl
    omega
  have hsixty : t.second ≠ 60 := by omega
  have hzone : ({ year := t.year, month := t.month, day := t.day, hour := t.hour
                  minute := t.minute, second := t.second, nano := t.nano } : Instant).fromZone 0
      = t := fromZone_zero hhour hminute
  simp [ofParts?, hyear, hyears, hzone, hsixty]
  omega

theorem fraction_ends (t : Instant) : EndsDigits (t.fraction ++ ['Z']) := by
  unfold fraction
  dsimp only
  split
  · exact endsDigits_cons rfl
  · split
    · exact endsDigits_cons rfl
    · split <;> exact endsDigits_cons rfl

/-- The parts of the notation, each with its mark behind it. -/
theorem digits_eq (hnano : t.nano < 1000000000) :
    t.dateDigits ++ 'T' :: (t.timeDigits ++ (t.fraction ++ ['Z']))
      = yearDigits t.year ++ '-' :: (padded 2 t.month ++ '-' :: (padded 2 t.day ++ 'T' ::
          (padded 2 t.hour ++ ':' :: (padded 2 t.minute ++ ':' :: (padded 2 t.second ++
            (t.fraction ++ ['Z'])))))) := by
  simp [dateDigits, timeDigits, if_pos hnano]

/-- A step of a reader that finds what it looks for. -/
theorem bind_of_eq_some {α β : Type} {x : Option α} {a : α} {f : α → Option β} {r : Option β}
    (hx : x = some a) (hr : f a = r) : (x >>= f) = r := by
  rw [hx]
  exact hr

/-- The notation of an instant is read as that instant. -/
theorem read?_render (ht : t.Ordinary) : Instant.read? t.render = some t := by
  have hdays := daysIn_le t.year t.month
  obtain ⟨hyear, hmonth, hday, hhour, hminute, hsecond, hnano⟩ := id ht
  rw [Instant.read?, render, String.toList_ofList, digits_eq hnano]
  -- the date
  refine bind_of_eq_some (year?_yearDigits hyear (endsDigits_cons rfl)) ?_
  refine bind_of_eq_some (after?_mark rfl) ?_
  refine bind_of_eq_some (number?_padded (by omega) (endsDigits_cons rfl)) ?_
  refine bind_of_eq_some (after?_mark rfl) ?_
  refine bind_of_eq_some (number?_padded (by omega) (endsDigits_cons rfl)) ?_
  refine bind_of_eq_some rfl ?_
  -- the time of day
  refine bind_of_eq_some (number?_padded (by omega) (endsDigits_cons rfl)) ?_
  refine bind_of_eq_some (after?_mark rfl) ?_
  refine bind_of_eq_some (number?_padded (by omega) (endsDigits_cons rfl)) ?_
  refine bind_of_eq_some (after?_mark rfl) ?_
  refine bind_of_eq_some (number?_padded (by omega) (fraction_ends t)) ?_
  refine bind_of_eq_some (nano?_fraction hnano) ?_
  refine bind_of_eq_some rfl ?_
  exact (if_pos rfl).trans (ofParts?_ordinary ht)

end Ensemble.Instant
