import Ensemble.Proofs.Input.Checking
import Ensemble.Proofs.Table
import Mathlib.Data.List.Nodup

/-!
# What inputs are resolved to

Variables come from the declarations alone: each is the plain text of the
value that an input gives for a declared name, and is not a file
(`variable_of_resolve`). Each payload of a file comes to one entry, which is
a file or an error of its input, and these are put down declaration by
declaration (`resolve_eq`). If the declared names differ, a name has what
its own declaration gives it and nothing else (`lookup_values`,
`lookup_files`).
-/

namespace Ensemble

/-- The files of a name. -/
def ResolvedInputs.filesOf (r : ResolvedInputs) (name : String) : List ResolvedFile :=
  (r.files.lookup name).getD []

namespace Input

/-- A declaration that `input` gives the text `text`. -/
structure Gives (input : Json) (d : InputDeclaration) (text : String) : Prop where
  kind : d.kind ≠ .file
  value : ∃ value, input.field? d.name = some value ∧ value ≠ .null ∧ value.plain = text

variable {extractor : Option Extractor} {input : Json} {r : ResolvedInputs}
  {d : InputDeclaration} {name text : String}

/-- One declared value adds at most the variable of its declaration. -/
theorem lookup_resolveValue {value : Json}
    (h : (resolveValue extractor r d value).values.lookup name = some text) :
    r.values.lookup name = some text ∨ d.kind ≠ .file ∧ name = d.name ∧ value.plain = text := by
  rw [resolveValue] at h
  split at h
  · exact .inl h
  · rename_i hkind
    rw [Table.lookup_insert] at h
    split at h
    · rename_i hname
      exact .inr ⟨hkind, hname, Option.some.inj h⟩
    · exact .inl h

/-- What is resolved so far, and one more declaration. -/
def resolveNext (extractor : Option Extractor) (input : Json) (r : ResolvedInputs)
    (d : InputDeclaration) : ResolvedInputs :=
  match input.field? d.name with
  | none => r
  | some .null => r
  | some value => resolveValue extractor r d value

theorem resolve_eq_foldl (extractor : Option Extractor) (declarations : List InputDeclaration)
    (input : Json) :
    resolve extractor declarations input
      = declarations.foldl (resolveNext extractor input) .empty := rfl

theorem lookup_resolveNext (h : (resolveNext extractor input r d).values.lookup name = some text) :
    r.values.lookup name = some text ∨ d.name = name ∧ Gives input d text := by
  rw [resolveNext] at h
  split at h
  · exact .inl h
  · exact .inl h
  · rename_i value hnull hfield
    rcases lookup_resolveValue h with hr | ⟨hkind, hname, hplain⟩
    · exact .inl hr
    · exact .inr ⟨hname.symm, hkind, value, hfield, hnull, hplain⟩

/-- A variable is the text that the input gives for a declaration. -/
theorem variable_of_resolve {declarations : List InputDeclaration}
    (h : (resolve extractor declarations input).values.lookup name = some text) :
    ∃ d ∈ declarations, d.name = name ∧ Gives input d text := by
  rw [resolve_eq_foldl] at h
  revert h
  refine List.foldlRecOn declarations (resolveNext extractor input)
    (motive := fun r => r.values.lookup name = some text →
      ∃ d ∈ declarations, d.name = name ∧ Gives input d text) (fun h => ?_) ?_
  · cases h
  · intro r ih d hd h
    rcases lookup_resolveNext h with hr | hgives
    · exact ih hr
    · exact ⟨d, hd, hgives⟩

/-! ## Payloads -/

/-- What a payload comes to: a file, or an error of the input that it was
given for. -/
abbrev Entry := Except ExtractionError ResolvedFile

def Entry.file? : Entry → Option ResolvedFile
  | .ok file => some file
  | .error _ => none

def Entry.error? : Entry → Option ExtractionError
  | .ok _ => none
  | .error e => some e

def entry (extractor : Option Extractor) (name payload : String) : Entry :=
  (resolveFile extractor payload).mapError fun fault => { input := name, fault }

theorem resolveFiles_eq (extractor : Option Extractor) (name : String) (ps : List String) :
    resolveFiles extractor name ps
      = ((ps.map (entry extractor name)).filterMap Entry.file?,
        (ps.map (entry extractor name)).filterMap Entry.error?) := by
  induction ps with
  | nil => rfl
  | cons payload rest ih =>
      rw [resolveFiles, ih, List.map_cons]
      cases hfile : resolveFile extractor payload with
      | ok file =>
          have hentry : entry extractor name payload = .ok file := by
            rw [entry, hfile]
            rfl
          rw [List.filterMap_cons_some (congrArg Entry.file? hentry),
            List.filterMap_cons_none (congrArg Entry.error? hentry)]
      | error fault =>
          have hentry : entry extractor name payload = .error { input := name, fault } := by
            rw [entry, hfile]
            rfl
          rw [List.filterMap_cons_none (congrArg Entry.file? hentry),
            List.filterMap_cons_some (congrArg Entry.error? hentry)]

/-- An error tells for which input its payload was given. -/
theorem input_of_error? {payload : String} {e : ExtractionError}
    (h : (entry extractor name payload).error? = some e) : e.input = name := by
  rw [entry] at h
  cases hfile : resolveFile extractor payload with
  | ok file =>
      rw [hfile] at h
      cases h
  | error fault =>
      rw [hfile] at h
      obtain rfl := Option.some.inj h
      rfl

/-- Each entry is a file or an error. -/
theorem length_file?_add_error? (es : List Entry) :
    (es.filterMap Entry.file?).length + (es.filterMap Entry.error?).length = es.length := by
  induction es with
  | nil => rfl
  | cons e rest ih =>
      cases e with
      | ok file =>
          simp only [List.filterMap_cons, Entry.file?, Entry.error?, List.length_cons]
          omega
      | error e =>
          simp only [List.filterMap_cons, Entry.file?, Entry.error?, List.length_cons]
          omega

/-! ## Declarations one by one -/

/-- The text that an input gives for a declaration. -/
def plain? (input : Json) (d : InputDeclaration) : Option String :=
  if d.kind = .file then none else (given? input d).map Json.plain

theorem plain?_eq_some_iff : plain? input d = some text ↔ Gives input d text := by
  rw [plain?]
  split
  · rename_i hkind
    exact ⟨nofun, fun h => absurd hkind h.kind⟩
  · rename_i hkind
    rw [Option.map_eq_some_iff]
    constructor
    · rintro ⟨value, hgiven, hplain⟩
      obtain ⟨hfield, hnull⟩ := given?_eq_some_iff.mp hgiven
      exact ⟨hkind, value, hfield, hnull, hplain⟩
    · rintro ⟨-, value, hfield, hnull, hplain⟩
      exact ⟨value, given?_eq_some_iff.mpr ⟨hfield, hnull⟩, hplain⟩

/-- What the payloads of a declaration come to, in order. -/
def entries (extractor : Option Extractor) (input : Json) (d : InputDeclaration) : List Entry :=
  (handed input d).map (entry extractor d.name)

def filesGiven (extractor : Option Extractor) (input : Json) (d : InputDeclaration) :
    List ResolvedFile :=
  (entries extractor input d).filterMap Entry.file?

def errorsGiven (extractor : Option Extractor) (input : Json) (d : InputDeclaration) :
    List ExtractionError :=
  (entries extractor input d).filterMap Entry.error?

/-- The files of a declaration, if there are any. -/
def files? (extractor : Option Extractor) (input : Json) (d : InputDeclaration) :
    Option (List ResolvedFile) :=
  if (filesGiven extractor input d).isEmpty then none else some (filesGiven extractor input d)

theorem files?_eq_some_iff {files : List ResolvedFile} :
    files? extractor input d = some files
      ↔ filesGiven extractor input d = files ∧ files ≠ [] := by
  rw [files?]
  cases filesGiven extractor input d with
  | nil => exact ⟨nofun, fun h => absurd h.1.symm h.2⟩
  | cons file rest =>
      simp only [List.isEmpty_cons, Bool.false_eq_true, if_false, Option.some.injEq]
      exact ⟨fun h => ⟨h, h ▸ List.cons_ne_nil file rest⟩, fun h => h.1⟩

/-- Nothing comes of no payloads. -/
theorem given_of_handed_nil (extractor : Option Extractor) (h : handed input d = []) :
    files? extractor input d = none ∧ errorsGiven extractor input d = [] := by
  rw [files?, filesGiven, errorsGiven, entries, h]
  exact ⟨rfl, rfl⟩

theorem kind_of_files? {files : List ResolvedFile}
    (h : files? extractor input d = some files) : d.kind = .file := by
  by_contra hkind
  rw [(given_of_handed_nil extractor (if_neg hkind)).1] at h
  cases h

/-- A table with what a declaration gives for its name, if that is anything. -/
def settle {α : Type} (mine : InputDeclaration → Option α) (table : List (String × α))
    (d : InputDeclaration) : List (String × α) :=
  match mine d with
  | some value => Table.insert d.name value table
  | none => table

theorem resolveNext_eq (extractor : Option Extractor) (input : Json) (r : ResolvedInputs)
    (d : InputDeclaration) :
    resolveNext extractor input r d
      = { values := settle (plain? input) r.values d
          files := settle (files? extractor input) r.files d
          errors := r.errors ++ errorsGiven extractor input d } := by
  have hnext : resolveNext extractor input r d
      = (given? input d).elim r (resolveValue extractor r d) := by
    rw [resolveNext, given?]
    cases input.field? d.name with
    | none => rfl
    | some value => cases value <;> rfl
  rw [hnext]
  by_cases hkind : d.kind = .file
  · have hplain : plain? input d = none := if_pos hkind
    cases hgiven : given? input d with
    | none =>
        have hhanded : handed input d = [] := by
          rw [handed, if_pos hkind, hgiven]
          rfl
        obtain ⟨hfiles, herrors⟩ := given_of_handed_nil extractor hhanded
        simp [settle, hplain, hfiles, herrors]
    | some value =>
        have hhanded : handed input d = payloads value := by
          rw [handed, if_pos hkind, hgiven]
          rfl
        simp only [Option.elim_some, resolveValue, if_pos hkind, resolveFiles_eq, settle, hplain,
          files?, filesGiven, errorsGiven, entries, hhanded]
        split <;> rfl
  · have hhanded : handed input d = [] := if_neg hkind
    obtain ⟨hfiles, herrors⟩ := given_of_handed_nil extractor hhanded
    cases hgiven : given? input d with
    | none => simp [settle, plain?, hkind, hgiven, hfiles, herrors]
    | some value => simp [resolveValue, settle, plain?, hkind, hgiven, hfiles, herrors]

/-! ## All declarations -/

/-- What is resolved, declaration by declaration. -/
theorem resolve_eq (extractor : Option Extractor) (declarations : List InputDeclaration)
    (input : Json) :
    resolve extractor declarations input
      = { values := declarations.foldl (settle (plain? input)) []
          files := declarations.foldl (settle (files? extractor input)) []
          errors := declarations.flatMap (errorsGiven extractor input) } := by
  have hall : ∀ r : ResolvedInputs, declarations.foldl (resolveNext extractor input) r
      = { values := declarations.foldl (settle (plain? input)) r.values
          files := declarations.foldl (settle (files? extractor input)) r.files
          errors := r.errors ++ declarations.flatMap (errorsGiven extractor input) } := by
    induction declarations with
    | nil => simp
    | cons d rest ih =>
        intro r
        rw [List.foldl_cons, ih, resolveNext_eq, List.flatMap_cons, List.append_assoc]
        rfl
  rw [resolve_eq_foldl, hall]
  rfl

section Settling

variable {α : Type} {mine : InputDeclaration → Option α} {declarations : List InputDeclaration}
  {table : List (String × α)}

theorem lookup_settle (d : InputDeclaration) :
    (settle mine table d).lookup name
      = if name = d.name then (mine d).or (table.lookup name) else table.lookup name := by
  rw [settle]
  cases mine d with
  | none => simp
  | some value => rw [Table.lookup_insert, Option.some_or]

theorem ascending_settled (h : Table.Ascending table) :
    Table.Ascending (declarations.foldl (settle mine) table) := by
  refine List.foldlRecOn declarations (settle mine) h fun table h d _ => ?_
  rw [settle]
  cases mine d with
  | none => exact h
  | some value => exact h.insert d.name value

/-- The declaration of a name. -/
def declared? (declarations : List InputDeclaration) (name : String) : Option InputDeclaration :=
  declarations.find? fun d => d.name == name

theorem declared?_eq_some_iff (hnodup : (declarations.map InputDeclaration.name).Nodup) :
    declared? declarations name = some d ↔ d ∈ declarations ∧ d.name = name := by
  constructor
  · intro h
    exact ⟨List.mem_of_find?_eq_some h, by simpa using List.find?_some h⟩
  · rintro ⟨hd, rfl⟩
    have hsome : (declared? declarations d.name).isSome = true :=
      List.find?_isSome.mpr ⟨d, hd, beq_self_eq_true _⟩
    obtain ⟨d', hd'⟩ := Option.isSome_iff_exists.mp hsome
    have hname : d'.name = d.name := by simpa using List.find?_some hd'
    rw [hd', List.inj_on_of_nodup_map hnodup (List.mem_of_find?_eq_some hd') hd hname]

/-- If names differ, a name has what its own declaration gives. -/
theorem lookup_settled (hnodup : (declarations.map InputDeclaration.name).Nodup) :
    (declarations.foldl (settle mine) table).lookup name
      = ((declared? declarations name).bind mine).or (table.lookup name) := by
  induction declarations generalizing table with
  | nil => rfl
  | cons d rest ih =>
      obtain ⟨hnew, hrest⟩ := List.nodup_cons.mp hnodup
      rw [List.foldl_cons, ih hrest, lookup_settle, declared?, declared?, List.find?_cons]
      by_cases hname : d.name = name
      · have hlater : rest.find? (fun d => d.name == name) = none := by
          refine List.find?_eq_none.mpr fun d' hd' heq => hnew ?_
          rw [hname, ← beq_iff_eq.mp heq]
          exact List.mem_map_of_mem hd'
        rw [if_pos hname.symm, hlater, beq_iff_eq.mpr hname]
        rfl
      · rw [if_neg (Ne.symm hname), beq_eq_false_iff_ne.mpr hname]

end Settling

section Lookup

variable {declarations : List InputDeclaration}
  (hnodup : (declarations.map InputDeclaration.name).Nodup)

include hnodup

theorem lookup_values (extractor : Option Extractor) (input : Json) (name : String) :
    (resolve extractor declarations input).values.lookup name
      = (declared? declarations name).bind (plain? input) := by
  rw [resolve_eq, lookup_settled hnodup]
  exact Option.or_none

theorem lookup_files (extractor : Option Extractor) (input : Json) (name : String) :
    (resolve extractor declarations input).files.lookup name
      = (declared? declarations name).bind (files? extractor input) := by
  rw [resolve_eq, lookup_settled hnodup]
  exact Option.or_none

/-- A name with files is declared as one of files, and is no variable. -/
theorem of_lookup_files {files : List ResolvedFile}
    (h : (resolve extractor declarations input).files.lookup name = some files) :
    files ≠ [] ∧ (∃ d ∈ declarations, d.name = name ∧ d.kind = .file) ∧
      (resolve extractor declarations input).values.lookup name = none := by
  rw [lookup_files hnodup] at h
  obtain ⟨d, hd, hfiles⟩ := Option.bind_eq_some_iff.mp h
  obtain ⟨hmem, hname⟩ := (declared?_eq_some_iff hnodup).mp hd
  have hkind := kind_of_files? hfiles
  refine ⟨(files?_eq_some_iff.mp hfiles).2, ⟨d, hmem, hname, hkind⟩, ?_⟩
  rw [lookup_values hnodup, hd]
  exact if_pos hkind

end Lookup

end Input

end Ensemble
