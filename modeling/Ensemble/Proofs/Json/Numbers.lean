import Ensemble.Proofs.Json.RoundTrip
import Ensemble.Proofs.Table

/-!
# Numbers in what was read

A text has integers of 64 bits and doubles, and no other numbers
(`Document.parse?_inRange`). The free value of a document is canonical and
has no numbers but those of the document (`Document.gives_of_free?`). So
what was read can be written and read again, as long as no number in it is
a double.
-/

namespace Ensemble

/-- A number that a text can have: an integer of 64 bits or any double. -/
def Number.InRange : Number → Prop
  | .int i => -2 ^ 63 ≤ i ∧ i < 2 ^ 64
  | .double _ => True

theorem Number.isWhole_of_inRange {n : Number} (h : n.InRange) (hn : ∀ bits, n ≠ .double bits) :
    n.IsWhole := by
  cases n with
  | int i => exact h
  | double bits => exact (hn bits rfl).elim

/-! ## The numbers of a value -/

namespace Json

mutual

def numbers : Json → List Number
  | .number n => [n]
  | .array items => numbersOfItems items
  | .object fields => numbersOfFields fields
  | _ => []

def numbersOfItems : List Json → List Number
  | [] => []
  | v :: rest => v.numbers ++ numbersOfItems rest

def numbersOfFields : List (String × Json) → List Number
  | [] => []
  | (_, v) :: rest => v.numbers ++ numbersOfFields rest

end

theorem numbersOfFields_eq (es : List (String × Json)) :
    numbersOfFields es = es.flatMap fun e => e.2.numbers := by
  induction es with
  | nil => rfl
  | cons e rest ih => rw [numbersOfFields, ih, List.flatMap_cons]

theorem itemsWhole_of_numbers {vs : List Json}
    (h : ∀ v ∈ vs, (∀ n ∈ v.numbers, n.IsWhole) → v.IsWhole)
    (hvs : ∀ n ∈ numbersOfItems vs, n.IsWhole) : ItemsWhole vs := by
  induction vs with
  | nil => trivial
  | cons v rest ih =>
      obtain ⟨hv, hrest⟩ := List.forall_mem_cons.mp h
      obtain ⟨hfirst, hothers⟩ := List.forall_mem_append.mp hvs
      exact ⟨hv hfirst, ih hrest hothers⟩

theorem fieldsWhole_of_numbers {es : List (String × Json)}
    (h : ∀ k v, (k, v) ∈ es → (∀ n ∈ v.numbers, n.IsWhole) → v.IsWhole)
    (hes : ∀ n ∈ numbersOfFields es, n.IsWhole) : FieldsWhole es := by
  induction es with
  | nil => trivial
  | cons e rest ih =>
      obtain ⟨hfirst, hothers⟩ := List.forall_mem_append.mp hes
      have hrest := ih (fun k v hkv => h k v (List.mem_cons_of_mem _ hkv)) hothers
      exact ⟨h e.1 e.2 (List.mem_cons_self ..) hfirst, hrest⟩

/-- A value is whole if its numbers are. -/
theorem isWhole_of_numbers {v : Json} (h : ∀ n ∈ v.numbers, n.IsWhole) : v.IsWhole := by
  induction v with
  | number n => exact h n (List.mem_singleton_self n)
  | array items ih => exact itemsWhole_of_numbers ih h
  | object es ih => exact fieldsWhole_of_numbers ih h
  | _ => trivial

theorem canonicalFields_eq_self {es : List (String × Json)}
    (h : ∀ e ∈ es, e.2.canonical = e.2) : canonicalFields es = es := by
  induction es with
  | nil => rfl
  | cons e rest ih =>
      obtain ⟨he, hrest⟩ := List.forall_mem_cons.mp h
      rw [canonicalFields, he, ih hrest]

/-- A value in which no number is a double. -/
def NoDoubles (v : Json) : Prop := ∀ bits, Number.double bits ∉ v.numbers

end Json

/-! ## The numbers of a text -/

namespace Document

mutual

def numbers : Document → List Number
  | .number n => [n]
  | .array items => numbersOfItems items
  | .object fields => numbersOfFields fields
  | _ => []

def numbersOfItems : List Document → List Number
  | [] => []
  | d :: rest => d.numbers ++ numbersOfItems rest

def numbersOfFields : List (Option String × Document) → List Number
  | [] => []
  | (_, d) :: rest => d.numbers ++ numbersOfFields rest

end

theorem numbersOfItems_eq (items : List Document) :
    numbersOfItems items = items.flatMap numbers := by
  induction items with
  | nil => rfl
  | cons d rest ih => rw [numbersOfItems, ih, List.flatMap_cons]

theorem numbersOfFields_eq (fields : List (Option String × Document)) :
    numbersOfFields fields = fields.flatMap fun e => e.2.numbers := by
  induction fields with
  | nil => rfl
  | cons e rest ih => rw [numbersOfFields, ih, List.flatMap_cons]

theorem numbers_of_mem_items {d : Document} {items : List Document} (h : d ∈ items) :
    d.numbers ⊆ (array items).numbers := by
  rw [numbers, numbersOfItems_eq]
  exact fun n hn => List.mem_flatMap.mpr ⟨d, h, hn⟩

theorem numbers_of_mem_fields {e : Option String × Document}
    {fields : List (Option String × Document)} (h : e ∈ fields) :
    e.2.numbers ⊆ (object fields).numbers := by
  rw [numbers, numbersOfFields_eq]
  exact fun n hn => List.mem_flatMap.mpr ⟨e, h, hn⟩

end Document

def AllInRange (ns : List Number) : Prop := ∀ n ∈ ns, n.InRange

theorem AllInRange.append {ns ms : List Number} (hns : AllInRange ns) (hms : AllInRange ms) :
    AllInRange (ns ++ ms) := List.forall_mem_append.mpr ⟨hns, hms⟩

theorem allInRange_nil : AllInRange [] := by simp [AllInRange]

namespace Json.Reader

theorem numberOf?_inRange {negative : Bool} {whole : List Char} {places : Option (List Char)}
    {exponent : Option Int} {n : Number} (h : numberOf? negative whole places exponent = some n) :
    n.InRange := by
  have hmax : Decimal.maxUnsigned = 2 ^ 64 - 1 := rfl
  have hmin : Nat.pow 2 63 = 2 ^ 63 := rfl
  rw [numberOf?] at h
  by_cases hint : places.isNone ∧ exponent.isNone ∧
      (if negative then 0 < Decimal.ofDigits whole && Decimal.ofDigits whole ≤ Nat.pow 2 63
        else Decimal.ofDigits whole ≤ Decimal.maxUnsigned)
  · rw [if_pos hint] at h
    obtain rfl := Option.some.inj h
    obtain ⟨-, -, hfits⟩ := hint
    cases negative with
    | false =>
        have hle : Decimal.ofDigits whole ≤ 2 ^ 64 - 1 := by simpa [hmax] using hfits
        simp only [Bool.false_eq_true, if_false]
        constructor <;> omega
    | true =>
        have hle : 0 < Decimal.ofDigits whole ∧ Decimal.ofDigits whole ≤ 2 ^ 63 := by
          simpa [hmin] using hfits
        simp only [if_true]
        constructor <;> omega
  · rw [if_neg hint] at h
    obtain ⟨f, -, rfl⟩ := Option.map_eq_some_iff.mp h
    trivial

theorem unsigned_inRange {negative : Bool} {cs rest : List Char} {d : Document}
    (h : unsigned negative cs = some (d, rest)) : AllInRange d.numbers := by
  unfold unsigned at h
  simp only [Option.bind_eq_bind] at h
  split at h
  · cases h
  · simp only [Option.bind_eq_some_iff, Option.pure_def, Option.some_inj, Prod.mk.injEq] at h
    obtain ⟨⟨places, middle⟩, -, ⟨exponent, rest⟩, -, rfl, -⟩ := h
    cases hn : numberOf? negative (cs.takeWhile Char.isDigit) places exponent with
    | none => exact allInRange_nil
    | some n => exact List.forall_mem_singleton.mpr (numberOf?_inRange hn)

theorem numberBody_inRange {cs rest : List Char} {d : Document}
    (h : numberBody cs = some (d, rest)) : AllInRange d.numbers := by
  unfold numberBody at h
  split at h <;> exact unsigned_inRange h

theorem within_numbers {depth : Nat} {d : Document} (h : AllInRange d.numbers) :
    AllInRange (within depth d).numbers := by
  rw [within]
  split
  · exact allInRange_nil
  · exact h

/-- What the readers of values, items and fields yield with some fuel has numbers of texts only. -/
structure Sound (fuel : Nat) : Prop where
  value : ∀ {depth cs d rest}, value fuel depth cs = some (d, rest) → AllInRange d.numbers
  items : ∀ {depth cs ds rest}, items fuel depth cs = some (ds, rest) →
    AllInRange (Document.numbersOfItems ds)
  field : ∀ {depth cs e rest}, field fuel depth cs = some (e, rest) → AllInRange e.2.numbers
  fields : ∀ {depth cs es rest}, fields fuel depth cs = some (es, rest) →
    AllInRange (Document.numbersOfFields es)

variable {fuel depth : Nat} {cs rest : List Char} {d : Document}

theorem Sound.succ_value (h : Sound fuel)
    (hd : Reader.value (fuel + 1) depth cs = some (d, rest)) : AllInRange d.numbers := by
  unfold Reader.value at hd
  split at hd
  -- an array has a first item and others, an object a first field and others
  case h_5 =>
    split at hd
    · obtain ⟨rfl, -⟩ := Prod.mk.inj (Option.some.inj hd)
      exact within_numbers allInRange_nil
    · split at hd
      · cases hd
      · rename_i hfirst
        obtain ⟨⟨others, middle⟩, hothers, heq⟩ := Option.map_eq_some_iff.mp hd
        obtain ⟨rfl, -⟩ := Prod.mk.inj heq
        exact within_numbers ((h.value hfirst).append (h.items hothers))
  case h_6 =>
    split at hd
    · obtain ⟨rfl, -⟩ := Prod.mk.inj (Option.some.inj hd)
      exact within_numbers allInRange_nil
    · split at hd
      · cases hd
      · rename_i hfirst
        obtain ⟨⟨others, middle⟩, hothers, heq⟩ := Option.map_eq_some_iff.mp hd
        obtain ⟨rfl, -⟩ := Prod.mk.inj heq
        exact within_numbers ((h.field hfirst).append (h.fields hothers))
  case h_4 =>
    obtain ⟨⟨cs, middle⟩, -, heq⟩ := Option.map_eq_some_iff.mp hd
    obtain ⟨rfl, -⟩ := Prod.mk.inj heq
    cases cs <;> exact allInRange_nil
  case h_7 => exact numberBody_inRange hd
  all_goals
    obtain ⟨rfl, -⟩ := Prod.mk.inj (Option.some.inj hd)
    exact allInRange_nil

theorem Sound.succ_items {ds : List Document} (h : Sound fuel)
    (hds : Reader.items (fuel + 1) depth cs = some (ds, rest)) :
    AllInRange (Document.numbersOfItems ds) := by
  unfold Reader.items at hds
  split at hds
  · obtain ⟨rfl, -⟩ := Prod.mk.inj (Option.some.inj hds)
    exact allInRange_nil
  · split at hds
    · cases hds
    · rename_i hfirst
      obtain ⟨⟨others, middle⟩, hothers, heq⟩ := Option.map_eq_some_iff.mp hds
      obtain ⟨rfl, -⟩ := Prod.mk.inj heq
      exact (h.value hfirst).append (h.items hothers)
  · cases hds

theorem Sound.succ_field {e : Option String × Document} (h : Sound fuel)
    (he : Reader.field (fuel + 1) depth cs = some (e, rest)) : AllInRange e.2.numbers := by
  unfold Reader.field at he
  split at he
  · split at he
    · cases he
    · split at he
      · obtain ⟨⟨d, middle⟩, hd, heq⟩ := Option.map_eq_some_iff.mp he
        obtain ⟨rfl, -⟩ := Prod.mk.inj heq
        exact h.value hd
      · cases he
  · cases he

theorem Sound.succ_fields {es : List (Option String × Document)} (h : Sound fuel)
    (hes : Reader.fields (fuel + 1) depth cs = some (es, rest)) :
    AllInRange (Document.numbersOfFields es) := by
  unfold Reader.fields at hes
  split at hes
  · obtain ⟨rfl, -⟩ := Prod.mk.inj (Option.some.inj hes)
    exact allInRange_nil
  · split at hes
    · cases hes
    · rename_i hfirst
      obtain ⟨⟨others, middle⟩, hothers, heq⟩ := Option.map_eq_some_iff.mp hes
      obtain ⟨rfl, -⟩ := Prod.mk.inj heq
      exact (h.field hfirst).append (h.fields hothers)
  · cases hes

theorem sound (fuel : Nat) : Sound fuel := by
  induction fuel with
  | zero =>
      constructor <;> intro _ _ _ _ h
      · rw [Reader.value] at h
        cases h
      · rw [Reader.items] at h
        cases h
      · rw [Reader.field] at h
        cases h
      · rw [Reader.fields] at h
        cases h
  | succ fuel ih => exact ⟨ih.succ_value, ih.succ_items, ih.succ_field, ih.succ_fields⟩

end Json.Reader

namespace Document

/-- The numbers of a text are integers of 64 bits or doubles. -/
theorem parse?_inRange {cs : List Char} {d : Document} (h : parse? cs = some d) :
    AllInRange d.numbers := by
  unfold parse? at h
  split at h
  · rename_i hvalue
    split at h
    · obtain rfl := Option.some.inj h
      exact (Json.Reader.sound _).value hvalue
    · cases h
  · cases h

/-! ## Free values -/

/-- Induction on a document: an array or an object has all its documents below it. -/
@[induction_eliminator]
theorem ind {motive : Document → Prop} (null : motive .null) (bool : ∀ b, motive (.bool b))
    (number : ∀ n, motive (.number n)) (string : ∀ s, motive (.string s))
    (array : ∀ items, (∀ d ∈ items, motive d) → motive (.array items))
    (object : ∀ fields, (∀ k d, (k, d) ∈ fields → motive d) → motive (.object fields))
    (unreadable : motive .unreadable) (d : Document) : motive d :=
  d.rec (motive_1 := motive) (motive_2 := fun items => ∀ d ∈ items, motive d)
    (motive_3 := fun fields => ∀ k d, (k, d) ∈ fields → motive d)
    (motive_4 := fun field => motive field.2) null bool number string array object unreadable
    (by simp)
    (fun d rest hd hrest w hw => (List.mem_cons.mp hw).elim (fun heq => heq ▸ hd) (hrest w))
    (by simp)
    (fun field rest hfield hrest k d hd =>
      (List.mem_cons.mp hd).elim (fun heq => by subst heq; exact hfield) (hrest k d))
    (fun k d hd => hd)

/-- A value read from a document: it is canonical, and its numbers are among those of the
document. -/
structure Gives (d : Document) (v : Json) : Prop where
  canonical : v.canonical = v
  numbers : v.numbers ⊆ d.numbers

theorem gives_of_freeItems? {ds : List Document} {vs : List Json}
    (h : ∀ d ∈ ds, ∀ v, d.free? = some v → d.Gives v) (hvs : freeItems? ds = some vs) :
    Json.canonicalItems vs = vs ∧ Json.numbersOfItems vs ⊆ numbersOfItems ds := by
  induction ds generalizing vs with
  | nil =>
      obtain rfl := Option.some.inj hvs
      exact ⟨rfl, List.Subset.refl _⟩
  | cons d rest ih =>
      obtain ⟨hd, hrest⟩ := List.forall_mem_cons.mp h
      simp only [freeItems?, Option.bind_eq_bind, Option.bind_eq_some_iff, Option.pure_def,
        Option.some_inj] at hvs
      obtain ⟨v, hv, vs, hvs, rfl⟩ := hvs
      obtain ⟨hcanonical, hnumbers⟩ := hd v hv
      obtain ⟨hcanonicals, hothers⟩ := ih hrest hvs
      refine ⟨by rw [Json.canonicalItems, hcanonical, hcanonicals], ?_⟩
      exact List.append_subset.mpr ⟨List.subset_append_of_subset_left _ hnumbers,
        List.subset_append_of_subset_right _ hothers⟩

theorem gives_of_freeFields? {fs : List (Option String × Document)} {es : List (String × Json)}
    (h : ∀ k d, (k, d) ∈ fs → ∀ v, d.free? = some v → d.Gives v)
    (hes : freeFields? fs = some es) :
    (∀ e ∈ es, e.2.canonical = e.2) ∧ Json.numbersOfFields es ⊆ numbersOfFields fs := by
  induction fs generalizing es with
  | nil =>
      obtain rfl := Option.some.inj hes
      exact ⟨by simp, List.Subset.refl _⟩
  | cons f rest ih =>
      obtain ⟨key, d⟩ := f
      simp only [freeFields?, Option.bind_eq_bind, Option.bind_eq_some_iff, Option.pure_def,
        Option.some_inj] at hes
      obtain ⟨k, -, v, hv, es, hes, rfl⟩ := hes
      obtain ⟨hcanonical, hnumbers⟩ := h key d (List.mem_cons_self ..) v hv
      obtain ⟨hcanonicals, hothers⟩ :=
        ih (fun k d hd => h k d (List.mem_cons_of_mem _ hd)) hes
      refine ⟨List.forall_mem_cons.mpr ⟨hcanonical, hcanonicals⟩, ?_⟩
      exact List.append_subset.mpr ⟨List.subset_append_of_subset_left _ hnumbers,
        List.subset_append_of_subset_right _ hothers⟩

/-- The free value of a document. -/
theorem gives_of_free? {d : Document} {v : Json} (h : d.free? = some v) : d.Gives v := by
  induction d generalizing v with
  | array items ih =>
      obtain ⟨vs, hvs, rfl⟩ := Option.map_eq_some_iff.mp h
      obtain ⟨hcanonical, hnumbers⟩ := gives_of_freeItems? (fun d hd v => ih d hd) hvs
      exact ⟨by rw [Json.canonical, hcanonical], hnumbers⟩
  | object fields ih =>
      obtain ⟨es, hes, rfl⟩ := Option.map_eq_some_iff.mp h
      obtain ⟨hcanonical, hnumbers⟩ := gives_of_freeFields? (fun k d hd v => ih k d hd) hes
      -- a table has only entries that it was made from
      have hsub : ∀ e ∈ Table.ofList es, e ∈ es := fun e he =>
        (Table.mem_extend he).resolve_left List.not_mem_nil
      have hfields : Json.canonicalFields (Table.ofList es) = Table.ofList es :=
        Json.canonicalFields_eq_self fun e he => hcanonical e (hsub e he)
      refine ⟨by rw [Json.canonical, hfields, (Table.ascending_ofList es).ofList], ?_⟩
      intro n hn
      rw [Json.numbers, Json.numbersOfFields_eq] at hn
      obtain ⟨e, he, hn⟩ := List.mem_flatMap.mp hn
      refine hnumbers ?_
      rw [Json.numbersOfFields_eq]
      exact List.mem_flatMap.mpr ⟨e, hsub e he, hn⟩
  | unreadable => cases h
  | _ =>
      obtain rfl := Option.some.inj h
      exact ⟨rfl, List.Subset.refl _⟩

end Document

end Ensemble
