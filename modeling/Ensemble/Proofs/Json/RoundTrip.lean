import Ensemble.Json.Reader
import Ensemble.Proofs.Decimal.Digits
import Ensemble.Proofs.Json.Printing
import Mathlib.Algebra.Group.Int.Defs
import Mathlib.Data.Bool.AllAny

/-!
# Reading what was written

The text of a value without doubles that is not nested too deeply is read
as that value (`parse?_compact`). The reader goes on behind the text, so
the induction is on the value, with any text behind it that does not carry
on a number (`Stops`); and the fuel that a value needs is at most the
length of its text.
-/

namespace Ensemble

/-- An integer that fits into 64 bits, with or without a sign. -/
def Number.IsWhole : Number → Prop
  | .int i => -2 ^ 63 ≤ i ∧ i < 2 ^ 64
  | .double _ => False

namespace Json

/-! ## Values that can be read back -/

mutual

/-- All numbers in a value are integers of 64 bits. -/
def IsWhole : Json → Prop
  | .number n => n.IsWhole
  | .array items => ItemsWhole items
  | .object fields => FieldsWhole fields
  | _ => True

def ItemsWhole : List Json → Prop
  | [] => True
  | v :: rest => v.IsWhole ∧ ItemsWhole rest

def FieldsWhole : List (String × Json) → Prop
  | [] => True
  | (_, v) :: rest => v.IsWhole ∧ FieldsWhole rest

end

mutual

/-- How many arrays and objects are nested. -/
def depth : Json → Nat
  | .array items => 1 + depthItems items
  | .object fields => 1 + depthFields fields
  | _ => 0

def depthItems : List Json → Nat
  | [] => 0
  | v :: rest => max v.depth (depthItems rest)

def depthFields : List (String × Json) → Nat
  | [] => 0
  | (_, v) :: rest => max v.depth (depthFields rest)

end

namespace Reader

/-! ## Strings -/

theorem hexValue?_hexDigit : ∀ n < 16, hexValue? (hexDigit n) = some n := by decide

theorem stringBody_escape (c : Char) (rest : List Char) :
    stringBody (escape c ++ rest)
      = (stringBody rest).map fun (cs, rest) => (cs.map (c :: ·), rest) := by
  unfold escape
  iterate 7
    split
    · subst c
      simp [stringBody, simpleEscape?]
  split
  · rename_i hlt
    have hunit : codeUnit? '0' '0' (hexDigit (c.toNat / 16)) (hexDigit (c.toNat % 16))
        = some c.toNat := by
      have hzero : hexValue? '0' = some 0 := rfl
      have hvalue : ((0 * 16 + 0) * 16 + c.toNat / 16) * 16 + c.toNat % 16 = c.toNat := by omega
      rw [codeUnit?, hzero, hexValue?_hexDigit _ (by omega), hexValue?_hexDigit _ (by omega)]
      exact congrArg some hvalue
    have hhigh : isHighSurrogate c.toNat = false := by simp [isHighSurrogate]; omega
    have hlow : isLowSurrogate c.toNat = false := by simp [isLowSurrogate]; omega
    simp [stringBody, hunit, hhigh, hlow]
  · rename_i hquote hslash _ _ _ _ _ hvisible
    rw [List.singleton_append, stringBody]
    · simp [hvisible, hslash]
    · exact hquote
    · exact fun _ _ _ _ _ h => absurd h hslash
    · exact fun _ _ h => absurd h hslash

/-- A quoted string is read after its opening quote. -/
theorem stringBody_quoted (cs rest : List Char) :
    stringBody (escapeAll cs ++ '"' :: rest) = some (some cs, rest) := by
  induction cs with
  | nil => simp [escapeAll, stringBody]
  | cons c cs ih =>
      rw [escapeAll, List.append_assoc, stringBody_escape, ih]
      rfl

/-! ## Numbers -/

/-- What follows does not carry on a number. -/
def Stops (rest : List Char) : Prop :=
  ∀ c, rest.head? = some c → c.isDigit = false ∧ c ≠ '.' ∧ c ≠ 'e' ∧ c ≠ 'E'

theorem stops_nil : Stops [] := by simp [Stops]

theorem stops_cons {c : Char} (hc : c.isDigit = false ∧ c ≠ '.' ∧ c ≠ 'e' ∧ c ≠ 'E')
    (rest : List Char) : Stops (c :: rest) := by
  intro d hd
  obtain rfl := Option.some.inj hd
  exact hc

variable {rest : List Char}

theorem Stops.fraction? (h : Stops rest) : fraction? rest = some (none, rest) := by
  cases rest with
  | nil => rfl
  | cons c rest =>
      have hc := (h c rfl).2.1
      rw [Reader.fraction?]
      rintro cs heq
      exact hc (List.cons.inj heq).1

theorem Stops.exponent? (h : Stops rest) : exponent? rest = some (none, rest) := by
  cases rest with
  | nil => rfl
  | cons c rest =>
      obtain ⟨-, -, hsmall, hlarge⟩ := h c rfl
      unfold Reader.exponent?
      exact if_neg (not_or.mpr ⟨hsmall, hlarge⟩)

theorem unsigned_natural (negative : Bool) (n : Nat) (hrest : Stops rest) {m : Number}
    (hm : numberOf? negative (Decimal.natural n) none none = some m) :
    unsigned negative (Decimal.natural n ++ rest) = some (.number m, rest) := by
  have hdigits : ∀ c ∈ Decimal.natural n, c.isDigit = true := fun c => Decimal.isDigit_of_natural
  have hends : Decimal.EndsDigits rest := fun c hc => (hrest c hc).1
  have hlead : ((Decimal.natural n).isEmpty ||
      ((Decimal.natural n).head? == some '0' && (Decimal.natural n).length != 1)) = false := by
    rw [List.isEmpty_eq_false_iff.mpr (Decimal.natural_ne_nil n), Bool.false_or]
    by_cases hzero : (Decimal.natural n).head? = some '0'
    · rw [Decimal.natural_head n hzero]
      rfl
    · rw [beq_eq_false_iff_ne.mpr hzero, Bool.false_and]
  unfold unsigned
  simp only [Decimal.takeWhile_digits hdigits hends, Decimal.dropWhile_digits hdigits hends, hlead,
    hrest.fraction?, hrest.exponent?, hm, Option.bind_eq_bind, Option.bind_some]
  rfl

theorem numberOf?_positive {n : Nat} (hn : n < 2 ^ 64) :
    numberOf? false (Decimal.natural n) none none = some (.int n) := by
  have hfits : n ≤ Decimal.maxUnsigned := Nat.le_sub_one_of_lt hn
  simp [numberOf?, hfits]

theorem numberOf?_negative {n : Nat} (hpos : 0 < n) (hn : n ≤ 2 ^ 63) :
    numberOf? true (Decimal.natural n) none none = some (.int (-(n : Int))) := by
  have hfits : n ≤ Nat.pow 2 63 := hn
  simp [numberOf?, hfits, hpos]

/-- An integer is read as it was written. -/
theorem numberBody_integer {i : Int} (hi : Number.IsWhole (.int i)) (hrest : Stops rest) :
    numberBody (Decimal.integer i ++ rest) = some (.number (.int i), rest) := by
  obtain ⟨hlow, hhigh⟩ := hi
  cases i with
  | ofNat n =>
      rw [Int.ofNat_eq_natCast] at hhigh
      have hunsigned := unsigned_natural false n hrest (numberOf?_positive (by omega))
      rw [Decimal.integer, Int.ofNat_eq_natCast, ← hunsigned]
      obtain ⟨c, cs, hcs⟩ := List.exists_cons_of_ne_nil (Decimal.natural_ne_nil n)
      have hdigit : c.isDigit = true := Decimal.isDigit_of_natural (hcs ▸ List.mem_cons_self ..)
      rw [hcs, List.cons_append, numberBody]
      rintro ds heq
      obtain rfl := (List.cons.inj heq).1
      cases hdigit
  | negSucc n =>
      have hn : n + 1 ≤ 2 ^ 63 := by omega
      exact unsigned_natural true (n + 1) hrest (numberOf?_negative (Nat.succ_pos n) hn)

/-! ## How a text starts -/

/-- The start of a text that is neither a blank nor the end of an array or object. -/
def Begins (cs : List Char) : Prop :=
  ∃ c rest, cs = c :: rest ∧ isSpace c = false ∧ c ≠ ']' ∧ c ≠ '}'

theorem Begins.append {cs : List Char} (h : Begins cs) (rest : List Char) :
    Begins (cs ++ rest) := by
  obtain ⟨c, cs, rfl, hc⟩ := h
  exact ⟨c, cs ++ rest, rfl, hc⟩

theorem isDigit_iff (c : Char) : c.isDigit = true ↔ c ∈ "0123456789".toList := by
  constructor
  · intro h
    simp only [Char.isDigit, Bool.and_eq_true, decide_eq_true_eq] at h
    have hlow : 48 ≤ c.toNat := UInt32.le_iff_toNat_le.mp h.1
    have hhigh : c.toNat ≤ 57 := UInt32.le_iff_toNat_le.mp h.2
    have hall : ∀ n < 58, 48 ≤ n → Char.ofNat n ∈ "0123456789".toList := by decide
    have hmem := hall c.toNat (by omega) hlow
    rwa [Char.ofNat_toNat] at hmem
  · have hall : ∀ c ∈ "0123456789".toList, c.isDigit = true :=
      List.all_iff_forall_prop.mp (by decide)
    exact hall c

/-- An integer starts with a digit or a sign. -/
theorem integer_head (i : Int) :
    ∃ c cs, Decimal.integer i = c :: cs ∧ c ∈ "-0123456789".toList := by
  cases i with
  | ofNat n =>
      obtain ⟨c, cs, hcs⟩ := List.exists_cons_of_ne_nil (Decimal.natural_ne_nil n)
      have hdigit : c.isDigit = true := Decimal.isDigit_of_natural (hcs ▸ List.mem_cons_self ..)
      exact ⟨c, cs, hcs, List.mem_cons_of_mem _ ((isDigit_iff c).mp hdigit)⟩
  | negSucc n => exact ⟨'-', _, rfl, List.mem_cons_self ..⟩

theorem compact_begins {v : Json} (hv : v.IsWhole) : Begins v.compact := by
  cases v with
  | null => exact ⟨'n', _, rfl, by decide⟩
  | bool b => cases b <;> exact ⟨_, _, rfl, by decide⟩
  | number n =>
      cases n with
      | int i =>
          obtain ⟨c, cs, hcs, hc⟩ := integer_head i
          have hall : ∀ c ∈ "-0123456789".toList, isSpace c = false ∧ c ≠ ']' ∧ c ≠ '}' :=
            List.all_iff_forall_prop.mp (by decide)
          exact ⟨c, cs, hcs, hall c hc⟩
      | double bits => exact hv.elim
  | string s => exact ⟨'"', _, rfl, by decide⟩
  | array items => cases items <;> exact ⟨'[', _, rfl, by decide⟩
  | object fields => rcases fields with _ | ⟨⟨k, v⟩, rest⟩ <;> exact ⟨'\x7b', _, rfl, by decide⟩

theorem compactItems_stops (items : List Json) (rest : List Char) :
    Stops (compactItems items ++ rest) := by
  cases items <;> exact stops_cons (by decide) _

theorem compactFields_stops (fields : List (String × Json)) (rest : List Char) :
    Stops (compactFields fields ++ rest) := by
  rcases fields with _ | ⟨⟨k, v⟩, fields⟩ <;> exact stops_cons (by decide) _

/-! ## One value -/

variable {fuel depth : Nat} {cs : List Char} {d : Document}

theorem value_integer {i : Int} (hi : Number.IsWhole (.int i)) (hrest : Stops rest) :
    value (fuel + 1) depth (Decimal.integer i ++ rest) = some (.number (.int i), rest) := by
  rw [← numberBody_integer hi hrest]
  obtain ⟨c, cs, hcs, hc⟩ := integer_head i
  have hall : ∀ c ∈ "-0123456789".toList, isSpace c = false ∧ c ∉ "ntf\"[\x7b".toList :=
    List.all_iff_forall_prop.mp (by decide)
  obtain ⟨hspace, hother⟩ := hall c hc
  have hskip : skip (c :: (cs ++ rest)) = c :: (cs ++ rest) := by simp [skip, hspace]
  rw [hcs, List.cons_append, value, hskip]
  -- no other kind of value starts with a digit or a sign
  split <;> first
    | rfl
    | (rename_i heq; rw [(List.cons.inj heq).1] at hother; exact absurd (by decide) hother)

theorem value_string (s : String) (rest : List Char) :
    value (fuel + 1) depth (quoted s ++ rest) = some (.string s, rest) := by
  have hbody := stringBody_quoted s.toList rest
  simp [value, quoted, skip, isSpace, hbody]

theorem value_array {ds : List Document} {middle : List Char} (hdepth : depth ≠ 0)
    (hcs : Begins cs) (hfirst : value fuel (depth - 1) cs = some (d, middle))
    (hothers : items fuel (depth - 1) middle = some (ds, rest)) :
    value (fuel + 1) depth ('[' :: cs) = some (.array (d :: ds), rest) := by
  obtain ⟨c, cs, rfl, hspace, hend, -⟩ := hcs
  have hskip : skip (c :: cs) = c :: cs := by simp [skip, hspace]
  have hbracket : skip ('[' :: c :: cs) = '[' :: c :: cs := rfl
  rw [value, hbracket]
  simp [hskip, hend, hfirst, hothers, within, hdepth]

theorem value_object {entry : Option String × Document} {es : List (Option String × Document)}
    {middle : List Char} (hdepth : depth ≠ 0) (hcs : Begins cs)
    (hfirst : field fuel (depth - 1) cs = some (entry, middle))
    (hothers : fields fuel (depth - 1) middle = some (es, rest)) :
    value (fuel + 1) depth ('\x7b' :: cs) = some (.object (entry :: es), rest) := by
  obtain ⟨c, cs, rfl, hspace, -, hend⟩ := hcs
  have hskip : skip (c :: cs) = c :: cs := by simp [skip, hspace]
  have hbrace : skip ('\x7b' :: c :: cs) = '\x7b' :: c :: cs := rfl
  rw [value, hbrace]
  simp [hskip, hend, hfirst, hothers, within, hdepth]

theorem field_quoted (k : String) (hvalue : value fuel depth cs = some (d, rest)) :
    field (fuel + 1) depth (quoted k ++ ':' :: cs) = some ((some k, d), rest) := by
  have hbody := stringBody_quoted k.toList (':' :: cs)
  simp [field, quoted, skip, isSpace, hbody, hvalue]

theorem items_cons {ds : List Document} {middle : List Char}
    (hfirst : value fuel depth cs = some (d, middle))
    (hothers : items fuel depth middle = some (ds, rest)) :
    items (fuel + 1) depth (',' :: cs) = some (d :: ds, rest) := by
  simp [items, skip, isSpace, hfirst, hothers]

theorem fields_cons {entry : Option String × Document} {es : List (Option String × Document)}
    {middle : List Char} (hfirst : field fuel depth cs = some (entry, middle))
    (hothers : fields fuel depth middle = some (es, rest)) :
    fields (fuel + 1) depth (',' :: cs) = some (entry :: es, rest) := by
  simp [fields, skip, isSpace, hfirst, hothers]

/-! ## All values -/

/-- A value is read back from its text, whatever follows: with fuel for every character of the
text, and as deep as containers may be nested. -/
def Reads (v : Json) : Prop :=
  v.IsWhole → ∀ {fuel depth : Nat} {rest : List Char}, v.compact.length ≤ fuel →
    v.depth ≤ depth → Stops rest → value fuel depth (v.compact ++ rest) = some (.ofJson v, rest)

/-- No text is empty, so there is fuel for the value itself. -/
theorem Reads.intro {v : Json} (h : v.IsWhole → ∀ {fuel depth : Nat} {rest : List Char},
      v.compact.length ≤ fuel + 1 → v.depth ≤ depth → Stops rest →
        value (fuel + 1) depth (v.compact ++ rest) = some (.ofJson v, rest)) : Reads v := by
  intro hwhole fuel depth rest hfuel hdepth hrest
  obtain ⟨c, cs, hcs, -⟩ := compact_begins hwhole
  have hpos : 0 < v.compact.length := by simp [hcs]
  obtain ⟨fuel, rfl⟩ := Nat.exists_eq_add_one_of_ne_zero (n := fuel) (by omega)
  exact h hwhole hfuel hdepth hrest

theorem items_compact {vs : List Json} (h : ∀ v ∈ vs, Reads v) (hvs : ItemsWhole vs)
    (hfuel : (compactItems vs).length ≤ fuel) (hdepth : depthItems vs ≤ depth) :
    items fuel depth (compactItems vs ++ rest) = some (Document.ofItems vs, rest) := by
  induction vs generalizing fuel with
  | nil =>
      obtain ⟨fuel, rfl⟩ := Nat.exists_eq_add_one_of_ne_zero (Nat.ne_of_gt hfuel)
      simp [items, compactItems, skip, isSpace, Document.ofItems]
  | cons v vs ih =>
      obtain ⟨hv, hrest⟩ := List.forall_mem_cons.mp h
      obtain ⟨hwhole, hwholes⟩ := hvs
      obtain ⟨hdeep, hdeeps⟩ := Nat.max_le.mp hdepth
      simp only [compactItems, List.length_cons, List.length_append] at hfuel
      obtain ⟨fuel, rfl⟩ := Nat.exists_eq_add_one_of_ne_zero (n := fuel) (by omega)
      rw [compactItems, List.cons_append, List.append_assoc, Document.ofItems]
      exact items_cons (hv hwhole (by omega) hdeep (compactItems_stops vs rest))
        (ih hrest hwholes (by omega) hdeeps)

theorem quoted_begins (k : String) (cs : List Char) : Begins (quoted k ++ cs) :=
  ⟨'"', _, rfl, by decide⟩

/-- The text of a field. -/
theorem field_compact {k : String} {v : Json} (h : Reads v) (hv : v.IsWhole)
    (hfuel : (quoted k).length + v.compact.length ≤ fuel) (hdepth : v.depth ≤ depth)
    (hrest : Stops rest) :
    field fuel depth (quoted k ++ ':' :: (v.compact ++ rest))
      = some ((some k, .ofJson v), rest) := by
  have hquoted : 0 < (quoted k).length := Nat.succ_pos _
  obtain ⟨fuel, rfl⟩ := Nat.exists_eq_add_one_of_ne_zero (n := fuel) (by omega)
  exact field_quoted k (h hv (by omega) hdepth hrest)

theorem fields_compact {es : List (String × Json)} (h : ∀ k v, (k, v) ∈ es → Reads v)
    (hes : FieldsWhole es) (hfuel : (compactFields es).length ≤ fuel)
    (hdepth : depthFields es ≤ depth) :
    fields fuel depth (compactFields es ++ rest) = some (Document.ofFields es, rest) := by
  induction es generalizing fuel with
  | nil =>
      obtain ⟨fuel, rfl⟩ := Nat.exists_eq_add_one_of_ne_zero (Nat.ne_of_gt hfuel)
      simp [fields, compactFields, skip, isSpace, Document.ofFields]
  | cons entry es ih =>
      obtain ⟨k, v⟩ := entry
      obtain ⟨hwhole, hwholes⟩ := hes
      obtain ⟨hdeep, hdeeps⟩ := Nat.max_le.mp hdepth
      simp only [compactFields, List.length_cons, List.length_append] at hfuel
      obtain ⟨fuel, rfl⟩ := Nat.exists_eq_add_one_of_ne_zero (n := fuel) (by omega)
      rw [compactFields, List.cons_append, List.append_assoc, List.cons_append, List.append_assoc,
        Document.ofFields]
      exact fields_cons (field_compact (h k v (List.mem_cons_self ..)) hwhole (by omega) hdeep
          (compactFields_stops es rest))
        (ih (fun k' v' hv => h k' v' (List.mem_cons_of_mem _ hv)) hwholes (by omega) hdeeps)

theorem reads (v : Json) : Reads v := by
  induction v with
  | null =>
      exact .intro fun _ _ _ _ _ _ _ => by simp [value, compact, skip, isSpace, Document.ofJson]
  | bool b =>
      cases b <;>
        exact .intro fun _ _ _ _ _ _ _ => by simp [value, compact, skip, isSpace, Document.ofJson]
  | number n =>
      refine .intro fun hwhole _ _ _ _ _ hrest => ?_
      cases n with
      | int i => exact value_integer hwhole hrest
      | double bits => exact hwhole.elim
  | string s => exact .intro fun _ _ _ _ _ _ _ => value_string s _
  | array vs ih =>
      refine .intro fun hwhole fuel depth rest hfuel hdepth hrest => ?_
      cases vs with
      | nil =>
          have hwithin : depth ≠ 0 := Nat.ne_of_gt hdepth
          simp [value, compact, skip, isSpace, within, hwithin, Document.ofJson, Document.ofItems]
      | cons v vs =>
          obtain ⟨hv, hrests⟩ := List.forall_mem_cons.mp ih
          obtain ⟨hfirst, hothers⟩ := hwhole
          simp only [Json.depth, depthItems] at hdepth
          simp only [compact, List.length_cons, List.length_append] at hfuel
          rw [compact, List.cons_append, List.append_assoc, Document.ofJson, Document.ofItems]
          exact value_array (by omega) ((compact_begins hfirst).append _)
            (hv hfirst (by omega) (by omega) (compactItems_stops vs rest))
            (items_compact hrests hothers (by omega) (by omega))
  | object es ih =>
      refine .intro fun hwhole fuel depth rest hfuel hdepth hrest => ?_
      rcases es with _ | ⟨⟨k, v⟩, es⟩
      · have hwithin : depth ≠ 0 := Nat.ne_of_gt hdepth
        simp [value, compact, skip, isSpace, within, hwithin, Document.ofJson, Document.ofFields]
      · obtain ⟨hfirst, hothers⟩ := hwhole
        simp only [Json.depth, depthFields] at hdepth
        simp only [compact, List.length_cons, List.length_append] at hfuel
        rw [compact, List.cons_append, List.append_assoc, List.cons_append, List.append_assoc,
          Document.ofJson, Document.ofFields]
        exact value_object (by omega) (quoted_begins k _)
          (field_compact (ih k v (List.mem_cons_self ..)) hfirst (by omega) (by omega)
            (compactFields_stops es rest))
          (fields_compact (fun k' v' hv => ih k' v' (List.mem_cons_of_mem _ hv)) hothers
            (by omega) (by omega))

end Reader

/-- The text of a value is read as that value, with or without an end of the line. -/
theorem parse?_compact {v : Json} (hwhole : v.IsWhole) (hdepth : v.depth ≤ Document.maxDepth)
    {tail : List Char} (htail : tail = [] ∨ tail = ['\n']) :
    Document.parse? (v.compact ++ tail) = some (.ofJson v) := by
  have hstops : Reader.Stops tail := by
    rcases htail with rfl | rfl
    · exact Reader.stops_nil
    · exact Reader.stops_cons (by decide) []
  have hend : (Reader.skip tail).isEmpty = true := by
    rcases htail with rfl | rfl <;> rfl
  have hfuel : v.compact.length ≤ (v.compact ++ tail).length + 1 := by
    rw [List.length_append]
    omega
  rw [Document.parse?, Reader.reads v hwhole hfuel hdepth hstops]
  exact if_pos hend

end Json

end Ensemble
