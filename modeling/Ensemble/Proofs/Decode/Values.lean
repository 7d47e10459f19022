import Ensemble.Decode.Source
import Ensemble.Proofs.Json.Numbers

/-!
# Records read from values

A record that is written as an object is read field by field: when no key
occurs twice, asking for a key gives what was written under it
(`required?_fieldsOf`), and a tagged record gives its tag and the rest
(`tagged?_object`). The free values in a record come back canonical
(`free?_ofJson`), so the canonical ones come back as they were. Nodes of any
kind that stand for values are read alike (`written`), data set aside as well
as documents.

Conversely, what is read from the fields of a document is read from a node
among them or is a default (`Fields.withDefault?_eq_some`), and that node has
no numbers but those of the document (`numbers_of_record?`).
-/

namespace Ensemble

/-! ## Values set aside -/

namespace Content

mutual

/-- A value as the data that is set aside for it. -/
def ofJson : Json → Content
  | .null => .null
  | .bool b => .bool b
  | .number n => .number n
  | .string s => .string s
  | .array items => .list (ofItems items)
  | .object fields => .record (ofFields fields)

def ofItems : List Json → List Content
  | [] => []
  | v :: rest => ofJson v :: ofItems rest

def ofFields : List (String × Json) → List (Content × Content)
  | [] => []
  | (k, v) :: rest => (.string k, ofJson v) :: ofFields rest

end

theorem ofItems_eq (items : List Json) : ofItems items = items.map ofJson := by
  induction items with
  | nil => rfl
  | cons v rest ih => rw [ofItems, ih, List.map_cons]

theorem ofFields_eq (es : List (String × Json)) :
    ofFields es = es.map fun e => (.string e.1, ofJson e.2) := by
  induction es with
  | nil => rfl
  | cons e rest ih => rw [ofFields, ih, List.map_cons]

end Content

namespace Document

theorem ofItems_eq (items : List Json) : ofItems items = items.map ofJson := by
  induction items with
  | nil => rfl
  | cons v rest ih => rw [ofItems, ih, List.map_cons]

theorem ofFields_eq (es : List (String × Json)) :
    ofFields es = es.map fun e => (some e.1, ofJson e.2) := by
  induction es with
  | nil => rfl
  | cons e rest ih => rw [ofFields, ih, List.map_cons]

theorem contentItems?_ofItems {vs : List Json}
    (h : ∀ v ∈ vs, (ofJson v).content? = some (.ofJson v)) :
    contentItems? (ofItems vs) = some (Content.ofItems vs) := by
  induction vs with
  | nil => rfl
  | cons v rest ih =>
      obtain ⟨hv, hrest⟩ := List.forall_mem_cons.mp h
      simp [ofItems, contentItems?, Content.ofItems, hv, ih hrest]

theorem contentFields?_ofFields {es : List (String × Json)}
    (h : ∀ k v, (k, v) ∈ es → (ofJson v).content? = some (.ofJson v)) :
    contentFields? (ofFields es) = some (Content.ofFields es) := by
  induction es with
  | nil => rfl
  | cons e rest ih =>
      have hv := h e.1 e.2 (List.mem_cons_self ..)
      have hrest := ih fun k v hkv => h k v (List.mem_cons_of_mem _ hkv)
      simp [ofFields, contentFields?, Content.ofFields, hv, hrest]

/-- All of a value can be set aside. -/
theorem content?_ofJson (v : Json) : (ofJson v).content? = some (.ofJson v) := by
  induction v with
  | array items ih => simp [ofJson, content?, Content.ofJson, contentItems?_ofItems ih]
  | object es ih => simp [ofJson, content?, Content.ofJson, contentFields?_ofFields ih]
  | _ => rfl

theorem freeItems?_ofItems {vs : List Json}
    (h : ∀ v ∈ vs, (ofJson v).free? = some v.canonical) :
    freeItems? (ofItems vs) = some (Json.canonicalItems vs) := by
  induction vs with
  | nil => rfl
  | cons v rest ih =>
      obtain ⟨hv, hrest⟩ := List.forall_mem_cons.mp h
      simp [ofItems, freeItems?, Json.canonicalItems, hv, ih hrest]

theorem freeFields?_ofFields {es : List (String × Json)}
    (h : ∀ k v, (k, v) ∈ es → (ofJson v).free? = some v.canonical) :
    freeFields? (ofFields es) = some (Json.canonicalFields es) := by
  induction es with
  | nil => rfl
  | cons e rest ih =>
      have hv := h e.1 e.2 (List.mem_cons_self ..)
      have hrest := ih fun k v hkv => h k v (List.mem_cons_of_mem _ hkv)
      simp [ofFields, freeFields?, Json.canonicalFields, hv, hrest]

/-- A document gives back the value that it was made from, in canonical form. -/
theorem free?_ofJson (v : Json) : (ofJson v).free? = some v.canonical := by
  induction v with
  | array items ih => simp [ofJson, free?, Json.canonical, freeItems?_ofItems ih]
  | object es ih => simp [ofJson, free?, Json.canonical, freeFields?_ofFields ih]
  | _ => rfl

end Document

namespace Content

theorem freeItems?_ofItems {vs : List Json} (hvs : Json.ItemsWhole vs)
    (h : ∀ v ∈ vs, v.IsWhole → (ofJson v).free? = some v.canonical) :
    freeItems? (ofItems vs) = some (Json.canonicalItems vs) := by
  induction vs with
  | nil => rfl
  | cons v rest ih =>
      obtain ⟨hv, hrest⟩ := List.forall_mem_cons.mp h
      simp [ofItems, freeItems?, Json.canonicalItems, hv hvs.1, ih hvs.2 hrest]

theorem freeFields?_ofFields {es : List (String × Json)} (hes : Json.FieldsWhole es)
    (h : ∀ k v, (k, v) ∈ es → v.IsWhole → (ofJson v).free? = some v.canonical) :
    freeFields? (ofFields es) = some (Json.canonicalFields es) := by
  induction es with
  | nil => rfl
  | cons e rest ih =>
      have hv := h e.1 e.2 (List.mem_cons_self ..) hes.1
      have hrest := ih hes.2 fun k v hkv => h k v (List.mem_cons_of_mem _ hkv)
      simp [ofFields, freeFields?, Json.canonicalFields, hv, hrest]

/-- Data set aside give back the value that they were made from, in canonical form. -/
theorem free?_ofJson {v : Json} (hv : v.IsWhole) : (ofJson v).free? = some v.canonical := by
  induction v with
  | number n =>
      cases n with
      | int i => rfl
      | double bits => exact hv.elim
  | array items ih => simp [ofJson, free?, Json.canonical, freeItems?_ofItems hv ih]
  | object es ih => simp [ofJson, free?, Json.canonical, freeFields?_ofFields hv ih]
  | _ => rfl

end Content

/-! ## Records -/

namespace Decode

variable {α : Type} {es : List (String × Json)}

theorem mapM_some {β : Type} {f : α → Option β} {g : α → β} {xs : List α}
    (h : ∀ x ∈ xs, f x = some (g x)) : xs.mapM f = some (xs.map g) := by
  induction xs with
  | nil => rfl
  | cons x xs ih =>
      obtain ⟨hx, hxs⟩ := List.forall_mem_cons.mp h
      simp [List.mapM_cons, hx, ih hxs]

/-- When no key occurs twice, at most one entry has a key. -/
theorem filter_key {ν : Type} {entries : List (String × ν)} (hkeys : (entries.map Prod.fst).Nodup)
    (key : String) :
    entries.filter (fun e => e.1 == key) = ((entries.lookup key).map fun v => (key, v)).toList := by
  induction entries with
  | nil => rfl
  | cons e rest ih =>
      obtain ⟨k, v⟩ := e
      obtain ⟨hfresh, hrest⟩ := List.nodup_cons.mp hkeys
      rw [List.filter_cons, ih hrest, List.lookup_cons]
      by_cases hk : k = key
      · subst hk
        have hnone : rest.lookup k = none := by
          refine List.lookup_eq_none_iff.mpr fun e he => ?_
          have hmem : e.1 ∈ rest.map Prod.fst := List.mem_map_of_mem he
          have hne : k ≠ e.1 := fun heq => hfresh (heq ▸ hmem)
          simpa using hne
        simp [hnone]
      · have hother : (key == k) = false := beq_eq_false_iff_ne.mpr (Ne.symm hk)
        simp [hk, hother]

section

variable {ν : Type} {of : Json → ν}

/-- The fields of an object, where a node stands for each value. -/
def written (of : Json → ν) (es : List (String × Json)) : Fields ν :=
  .named (es.map fun e => (.name e.1, of e.2))

/-- A field that is written under its first name is found, if none is written under another one. -/
theorem find?_written (hkeys : (es.map Prod.fst).Nodup) (place : Nat) (key : String)
    {others : List String} (hothers : ∀ k ∈ others, k ∉ es.map Prod.fst) :
    (written of es).find? place (key :: others) = some ((es.lookup key).map of) := by
  have hfilter : (es.map fun e => ((Key.name e.1 : Key), of e.2)).filter
      (fun entry => Key.isFor place (key :: others) entry.1)
        = (es.filter fun e => e.1 == key).map fun e => (Key.name e.1, of e.2) := by
    rw [List.filter_map]
    refine congrArg _ (List.filter_congr fun e he => ?_)
    have hne : e.1 ∉ others := fun hmem => hothers e.1 hmem (List.mem_map_of_mem he)
    simp [Key.isFor, beq_eq_decide, hne]
  rw [written, Fields.find?, hfilter, filter_key hkeys]
  cases es.lookup key <;> rfl

@[simp] theorem required?_written (hkeys : (es.map Prod.fst).Nodup) (place : Nat) (key : String)
    (read : ν → Option α) :
    (written of es).required? place [key] read = (es.lookup key).bind fun v => read (of v) := by
  rw [Fields.required?, find?_written hkeys place key (by simp)]
  cases es.lookup key <;> rfl

@[simp] theorem withDefault?_written (hkeys : (es.map Prod.fst).Nodup) (place : Nat) (key : String)
    {others : List String} (hothers : ∀ k ∈ others, k ∉ es.map Prod.fst) (read : ν → Option α)
    (default : α) :
    (written of es).withDefault? place (key :: others) read default
      = match es.lookup key with
        | none => some default
        | some v => read (of v) := by
  rw [Fields.withDefault?, find?_written hkeys place key hothers]
  cases es.lookup key <;> rfl

end

/-- The fields of an object that was set aside. -/
def fieldsOf (es : List (String × Json)) : Fields Content :=
  .named (es.map fun e => (.name e.1, .ofJson e.2))

@[simp] theorem record?_object (size : Nat) (es : List (String × Json)) :
    record? size (Content.ofJson (.object es)) = some (fieldsOf es) := by
  have hkeys : (Content.ofFields es).mapM (fun (entry : Content × Content) =>
      entry.1.key?.map fun key => (key, entry.2))
        = some (es.map fun e => (Key.name e.1, Content.ofJson e.2)) := by
    rw [Content.ofFields_eq, List.mapM_map]
    exact mapM_some fun _ _ => rfl
  simp [record?, Content.ofJson, Source.fields?, hkeys, fieldsOf]

@[simp] theorem record?_document (size : Nat) (es : List (String × Json)) :
    record? size (Document.ofJson (.object es)) = some (written .ofJson es) := by
  have hkeys : (Document.ofFields es).mapM (fun (entry : Option String × Document) =>
      entry.1.map fun key => (Key.name key, entry.2))
        = some (es.map fun e => (Key.name e.1, Document.ofJson e.2)) := by
    rw [Document.ofFields_eq, List.mapM_map]
    exact mapM_some fun _ _ => rfl
  simp [record?, Document.ofJson, Source.fields?, hkeys, written]

/-- What is asked for under a key is what was written under it. -/
@[simp] theorem required?_fieldsOf (hkeys : (es.map Prod.fst).Nodup) (place : Nat) (key : String)
    (read : Content → Option α) :
    (fieldsOf es).required? place [key] read = (es.lookup key).bind fun v => read (.ofJson v) :=
  required?_written hkeys place key read

@[simp] theorem withDefault?_fieldsOf (hkeys : (es.map Prod.fst).Nodup) (place : Nat)
    (key : String) (read : Content → Option α) (default : α) :
    (fieldsOf es).withDefault? place [key] read default
      = match es.lookup key with
        | none => some default
        | some v => read (.ofJson v) :=
  withDefault?_written hkeys place key (by simp) read default

/-! ## Tagged records -/

theorem untag?_object {es : List (String × Json)} (tag : String)
    (hfree : "type" ∉ es.map Prod.fst) :
    (Content.ofJson (.object (("type", .string tag) :: es))).untag?
      = some (.string tag, .ofJson (.object es)) := by
  have hnone : ∀ field ∈ Content.ofFields es, field.1.isTagKey = false := by
    rw [Content.ofFields_eq]
    intro field hfield
    obtain ⟨e, he, rfl⟩ := List.mem_map.mp hfield
    have hne : e.1 ≠ "type" := fun heq => hfree (heq ▸ List.mem_map_of_mem he)
    simpa [Content.isTagKey] using hne
  have htag : (Content.ofFields es).filter (fun field => field.1.isTagKey) = [] := by
    simpa using hnone
  have hrest : (Content.ofFields es).filter (fun field => !field.1.isTagKey)
      = Content.ofFields es := by
    simpa using hnone
  have hfirst : (Content.string "type").isTagKey = true := rfl
  simp [Content.ofJson, Content.ofFields, Content.untag?, htag, hrest, hfirst]

variable {ν : Type} [Source ν] {node : ν} (variants : List (List String)) (tag : String)

theorem tagged?_of_untag {body : Content} (h : Source.untag? node = some (.name tag, body)) :
    tagged? variants node = (variants.findIdx? (·.contains tag)).map fun i => (i, body) := by
  rw [tagged?, h, Option.map_eq_bind]
  rfl

/-- A tagged record is known by its tag, and its fields are those behind the tag. -/
@[simp] theorem tagged?_object (hfree : "type" ∉ es.map Prod.fst) :
    tagged? variants (Content.ofJson (.object (("type", .string tag) :: es)))
      = (variants.findIdx? (·.contains tag)).map fun i => (i, .ofJson (.object es)) := by
  refine tagged?_of_untag variants tag ?_
  simp [Source.untag?, untag?_object tag hfree, Content.key?]

@[simp] theorem tagged?_document (hfree : "type" ∉ es.map Prod.fst) :
    tagged? variants (Document.ofJson (.object (("type", .string tag) :: es)))
      = (variants.findIdx? (·.contains tag)).map fun i => (i, .ofJson (.object es)) := by
  refine tagged?_of_untag variants tag ?_
  simp [Source.untag?, Document.content?_ofJson, untag?_object tag hfree]

/-! ## Lists of records -/

theorem list?_written {of : Json → ν} {f : α → Json} {read : ν → Option α} {xs : List α}
    (hnode : Source.items? node = some ((xs.map f).map of))
    (h : ∀ x ∈ xs, read (of (f x)) = some x) : list? read node = some xs := by
  have hall : xs.mapM (read ∘ of ∘ f) = some xs := by
    have hid := mapM_some (f := read ∘ of ∘ f) (g := id) h
    rwa [List.map_id] at hid
  simpa [list?, hnode] using hall

/-- A list of records that are all read back. -/
theorem list?_array {f : α → Json} {read : Content → Option α} {xs : List α}
    (h : ∀ x ∈ xs, read (.ofJson (f x)) = some x) :
    list? read (Content.ofJson (.array (xs.map f))) = some xs :=
  list?_written (by simp [Source.items?, Content.ofJson, Content.ofItems_eq]) h

theorem list?_document {f : α → Json} {read : Document → Option α} {xs : List α}
    (h : ∀ x ∈ xs, read (.ofJson (f x)) = some x) :
    list? read (Document.ofJson (.array (xs.map f))) = some xs :=
  list?_written (by simp [Source.items?, Document.ofJson, Document.ofItems_eq]) h

/-! ## What a record is read from -/

section

omit [Source ν]

variable {fields : Fields ν} {place : Nat} {names : List String} {read : ν → Option α} {a : α}

def Fields.nodes : Fields ν → List ν
  | .named entries => entries.map Prod.snd
  | .positional items => items

theorem Fields.mem_nodes_of_find? (h : fields.find? place names = some (some node)) :
    node ∈ fields.nodes := by
  cases fields with
  | positional items => exact List.mem_of_getElem? (Option.some.inj h)
  | named entries =>
      rw [Fields.find?] at h
      split at h
      · cases h
      · rename_i key found hfilter
        obtain rfl := Option.some.inj (Option.some.inj h)
        have hmem : (key, found) ∈ entries :=
          List.mem_of_mem_filter (hfilter ▸ List.mem_singleton_self _)
        exact List.mem_map_of_mem hmem
      · cases h

theorem Fields.required?_eq_some (h : fields.required? place names read = some a) :
    ∃ node ∈ fields.nodes, read node = some a := by
  simp only [Fields.required?, Option.bind_eq_bind, Option.bind_eq_some_iff] at h
  obtain ⟨found, hfind, node, rfl, hread⟩ := h
  exact ⟨node, mem_nodes_of_find? hfind, hread⟩

theorem Fields.withDefault?_eq_some {default : α}
    (h : fields.withDefault? place names read default = some a) :
    a = default ∨ ∃ node ∈ fields.nodes, read node = some a := by
  simp only [Fields.withDefault?, Option.bind_eq_bind, Option.bind_eq_some_iff] at h
  obtain ⟨found, hfind, hread⟩ := h
  cases found with
  | none => exact Or.inl (Option.some.inj hread).symm
  | some node => exact Or.inr ⟨node, mem_nodes_of_find? hfind, hread⟩

end

theorem exists_of_mapM {β : Type} {f : α → Option β} {xs : List α} {ys : List β}
    (h : xs.mapM f = some ys) {y : β} (hy : y ∈ ys) : ∃ x ∈ xs, f x = some y := by
  induction xs generalizing ys with
  | nil =>
      obtain rfl := Option.some.inj h
      exact (List.not_mem_nil hy).elim
  | cons x xs ih =>
      simp only [List.mapM_cons, Option.bind_eq_bind, Option.bind_eq_some_iff, Option.pure_def,
        Option.some_inj] at h
      obtain ⟨first, hfirst, others, hothers, rfl⟩ := h
      rcases List.mem_cons.mp hy with rfl | hy
      · exact ⟨x, List.mem_cons_self .., hfirst⟩
      · obtain ⟨x', hx', hread⟩ := ih hothers hy
        exact ⟨x', List.mem_cons_of_mem _ hx', hread⟩

/-- A field of a document has no numbers but those of the document. -/
theorem numbers_of_record? {size : Nat} {d node : Document} {fields : Fields Document}
    (h : record? size d = some fields) (hnode : node ∈ fields.nodes) :
    node.numbers ⊆ d.numbers := by
  simp only [record?, Option.bind_eq_bind, Option.bind_eq_some_iff] at h
  obtain ⟨given, hgiven, hsize⟩ := h
  have hsame : given = fields := by
    cases given with
    | named entries => exact Option.some.inj hsize
    | positional items =>
        simp only at hsize
        split at hsize
        · exact Option.some.inj hsize
        · cases hsize
  subst hsame
  cases d with
  | array items =>
      obtain rfl := Option.some.inj hgiven
      exact Document.numbers_of_mem_items hnode
  | object es =>
      obtain ⟨entries, hentries, rfl⟩ := Option.map_eq_some_iff.mp hgiven
      obtain ⟨entry, hentry, rfl⟩ := List.mem_map.mp hnode
      obtain ⟨e, he, hkey⟩ := exists_of_mapM hentries hentry
      obtain ⟨key, -, rfl⟩ := Option.map_eq_some_iff.mp hkey
      exact Document.numbers_of_mem_fields he
  | _ => cases hgiven

/-- An item of a list is read from an item of the document. -/
theorem exists_of_list? {d : Document} {read : Document → Option α} {xs : List α}
    (h : list? read d = some xs) {x : α} (hx : x ∈ xs) :
    ∃ node : Document, node.numbers ⊆ d.numbers ∧ read node = some x := by
  simp only [list?, Option.bind_eq_bind, Option.bind_eq_some_iff] at h
  obtain ⟨items, hitems, hread⟩ := h
  obtain ⟨node, hnode, hx⟩ := exists_of_mapM hread hx
  cases d with
  | array given =>
      obtain rfl := Option.some.inj hitems
      exact ⟨node, Document.numbers_of_mem_items hnode, hx⟩
  | _ => cases hitems

end Decode

end Ensemble
