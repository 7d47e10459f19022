import Ensemble.Json.Basic
import Mathlib.Data.List.Nodup
import Mathlib.Data.String.Basic

/-!
# Looking up in tables

A table that is built by `insert` alone has ascending keys, so every key
has one value, and of two values of a key the later one counts
(`lookup_insert`, `lookup_extend`).
-/

namespace Ensemble.Table

variable {α : Type} {key : String} {table entries : List (String × α)}

theorem lookup_cons (k key : String) (value : α) (table : List (String × α)) :
    ((key, value) :: table).lookup k = if k = key then some value else table.lookup k := by
  rw [List.lookup_cons]
  by_cases hk : k = key
  · rw [if_pos hk, beq_iff_eq.mpr hk]
  · rw [if_neg hk, beq_eq_false_iff_ne.mpr hk]

theorem lookup_insert (k key : String) (value : α) (table : List (String × α)) :
    (insert key value table).lookup k = if k = key then some value else table.lookup k := by
  induction table with
  | nil => exact lookup_cons k key value []
  | cons entry rest ih =>
      obtain ⟨key', value'⟩ := entry
      rw [insert]
      split
      · exact lookup_cons k key value _
      · split
        · subst key'
          rw [lookup_cons, lookup_cons]
          split <;> rfl
        · rename_i hne
          rw [lookup_cons, ih, lookup_cons]
          by_cases hk : k = key
          · subst hk
            rw [if_neg hne, if_pos rfl, if_pos rfl]
          · rw [if_neg hk, if_neg hk]

/-! ## Ascending keys -/

/-- Every key is less than those after it. -/
def Ascending (table : List (String × α)) : Prop := table.Pairwise fun a b => a.1 < b.1

theorem ascending_nil : Ascending ([] : List (String × α)) := List.Pairwise.nil

theorem mem_insert {key : String} {value : α} {x : String × α}
    (hx : x ∈ insert key value table) : x = (key, value) ∨ x ∈ table := by
  induction table with
  | nil => exact Or.inl (List.mem_singleton.mp hx)
  | cons entry rest ih =>
      obtain ⟨key', value'⟩ := entry
      rw [insert] at hx
      split at hx
      · exact List.mem_cons.mp hx
      · split at hx
        · exact (List.mem_cons.mp hx).imp_right (List.mem_cons_of_mem _)
        · rcases List.mem_cons.mp hx with rfl | hx
          · exact Or.inr (List.mem_cons_self ..)
          · exact (ih hx).imp_right (List.mem_cons_of_mem _)

theorem Ascending.insert (h : Ascending table) (key : String) (value : α) :
    Ascending (insert key value table) := by
  induction table with
  | nil => exact List.pairwise_singleton ..
  | cons entry rest ih =>
      obtain ⟨key', value'⟩ := entry
      obtain ⟨hhead, htail⟩ := List.pairwise_cons.mp h
      rw [Table.insert]
      split
      · rename_i hlt
        refine List.pairwise_cons.mpr ⟨fun x hx => ?_, h⟩
        rcases List.mem_cons.mp hx with rfl | hx
        · exact hlt
        · exact lt_trans hlt (hhead x hx)
      · rename_i hnlt
        split
        · subst key'
          exact List.pairwise_cons.mpr ⟨hhead, htail⟩
        · rename_i hne
          refine List.pairwise_cons.mpr ⟨fun x hx => ?_, ih htail⟩
          rcases mem_insert hx with rfl | hx
          · exact lt_of_le_of_ne (not_lt.mp hnlt) (Ne.symm hne)
          · exact hhead x hx

theorem Ascending.extend (h : Ascending table) (entries : List (String × α)) :
    Ascending (extend table entries) := by
  induction entries generalizing table with
  | nil => exact h
  | cons entry rest ih => exact ih (h.insert entry.1 entry.2)

theorem mem_extend {x : String × α} (hx : x ∈ extend table entries) : x ∈ table ∨ x ∈ entries := by
  induction entries generalizing table with
  | nil => exact Or.inl hx
  | cons entry rest ih =>
      rcases ih hx with hx | hx
      · rcases mem_insert hx with rfl | hx
        · exact Or.inr (List.mem_cons_self ..)
        · exact Or.inl hx
      · exact Or.inr (List.mem_cons_of_mem _ hx)

theorem mem_of_lookup {value : α} (h : table.lookup key = some value) : (key, value) ∈ table := by
  induction table with
  | nil => cases h
  | cons entry rest ih =>
      obtain ⟨key', value'⟩ := entry
      rw [lookup_cons] at h
      split at h
      · subst key'
        obtain rfl := Option.some.inj h
        exact List.mem_cons_self ..
      · exact List.mem_cons_of_mem _ (ih h)

theorem mem_keys_iff : key ∈ table.map Prod.fst ↔ ∃ value, table.lookup key = some value := by
  constructor
  · intro h
    refine Option.ne_none_iff_exists'.mp fun hnone => ?_
    obtain ⟨entry, hentry, rfl⟩ := List.mem_map.mp h
    exact absurd (List.lookup_eq_none_iff.mp hnone entry hentry) (by simp)
  · rintro ⟨value, h⟩
    exact List.mem_map_of_mem (mem_of_lookup h)

theorem Ascending.nodup_keys (h : Ascending table) : (table.map Prod.fst).Nodup :=
  (List.pairwise_map.mpr h).imp fun hlt => hlt.ne

/-- An entry of a table is found by its key. -/
theorem Ascending.lookup_of_mem {value : α} (h : Ascending table) (hmem : (key, value) ∈ table) :
    table.lookup key = some value := by
  obtain ⟨value', hvalue⟩ := mem_keys_iff.mp (List.mem_map_of_mem hmem)
  have heq := List.inj_on_of_nodup_map h.nodup_keys (mem_of_lookup hvalue) hmem rfl
  rw [hvalue, (Prod.mk.inj heq).2]

/-- A table of entries has only values that are among them. -/
theorem mem_of_lookup_ofList {value : α} (h : (ofList entries).lookup key = some value) :
    (key, value) ∈ entries :=
  (mem_extend (mem_of_lookup h)).resolve_left (List.not_mem_nil)

/-- The last entry has the last word. -/
theorem lookup_ofList_concat_self (entries : List (String × α)) (key : String) (value : α) :
    (ofList (entries ++ [(key, value)])).lookup key = some value := by
  have hlast : ofList (entries ++ [(key, value)]) = insert key value (ofList entries) :=
    List.foldl_append
  rw [hlast, lookup_insert, if_pos rfl]

/-- A key has no value behind its first one. -/
theorem Ascending.lookup_tail {value : α} (h : Ascending ((key, value) :: table)) :
    table.lookup key = none := by
  refine List.lookup_eq_none_iff.mpr fun x hx => ?_
  have hlt := (List.pairwise_cons.mp h).1 x hx
  simpa using hlt.ne

/-- Entries win over those of the table that they extend. -/
theorem lookup_extend (hentries : Ascending entries) (k : String) (table : List (String × α)) :
    (extend table entries).lookup k = (entries.lookup k).or (table.lookup k) := by
  induction entries generalizing table with
  | nil => rfl
  | cons entry rest ih =>
      obtain ⟨key, value⟩ := entry
      have hstep : extend table ((key, value) :: rest) = extend (insert key value table) rest := rfl
      rw [hstep, ih hentries.of_cons, lookup_insert, lookup_cons]
      by_cases hk : k = key
      · subst hk
        rw [hentries.lookup_tail, if_pos rfl, if_pos rfl]
        rfl
      · rw [if_neg hk, if_neg hk]

/-! ## Keys -/

theorem mem_keys_insert_iff {k : String} {value : α} :
    k ∈ (insert key value table).map Prod.fst ↔ k = key ∨ k ∈ table.map Prod.fst := by
  rw [mem_keys_iff, mem_keys_iff, lookup_insert]
  by_cases hk : k = key
  · simp [hk]
  · simp [hk]

theorem mem_keys_extend_iff :
    key ∈ (extend table entries).map Prod.fst ↔
      key ∈ table.map Prod.fst ∨ key ∈ entries.map Prod.fst := by
  induction entries generalizing table with
  | nil => simp [extend]
  | cons entry rest ih =>
      have hstep : extend table (entry :: rest) = extend (insert entry.1 entry.2 table) rest := rfl
      rw [hstep, ih, mem_keys_insert_iff, List.map_cons, List.mem_cons]
      exact or_assoc.trans or_left_comm

/-- A table of entries has their keys, however often they are repeated. -/
theorem mem_keys_ofList_iff :
    key ∈ (ofList entries).map Prod.fst ↔ key ∈ entries.map Prod.fst :=
  mem_keys_extend_iff.trans (or_iff_right (List.not_mem_nil))

/-! ## Tables made of tables -/

theorem insert_eq_append {value : α} (h : ∀ x ∈ table, x.1 < key) :
    insert key value table = table ++ [(key, value)] := by
  induction table with
  | nil => rfl
  | cons entry rest ih =>
      obtain ⟨hhead, hrest⟩ := List.forall_mem_cons.mp h
      rw [insert, if_neg hhead.not_gt, if_neg hhead.ne', ih hrest, List.cons_append]

theorem extend_eq_append (h : Ascending (table ++ entries)) :
    extend table entries = table ++ entries := by
  induction entries generalizing table with
  | nil => exact (List.append_nil table).symm
  | cons entry rest ih =>
      have hless : ∀ x ∈ table, x.1 < entry.1 := fun x hx =>
        (List.pairwise_append.mp h).2.2 x hx entry (List.mem_cons_self ..)
      rw [List.append_cons] at h ⊢
      have hstep : extend table (entry :: rest) = extend (insert entry.1 entry.2 table) rest := rfl
      rw [hstep, insert_eq_append hless]
      exact ih h

/-- A table is the table of its entries. -/
theorem Ascending.ofList (h : Ascending table) : ofList table = table := extend_eq_append h

theorem ascending_ofList (entries : List (String × α)) : Ascending (ofList entries) :=
  ascending_nil.extend entries

end Ensemble.Table
