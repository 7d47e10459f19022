import Ensemble.Proofs.Input.Partition

/-!
# Required inputs

A required value has to be given, so of every required input something is
known after it has been resolved: its text, its files, or an error of a
payload. There is one exception, which a check lets through, namely an empty
list of files: it is given, and nothing comes of it
(`required_known_iff`, `required_files_vanish`).
-/

namespace Ensemble

/-- Something is known of a name: its text, its files, or an error. -/
def ResolvedInputs.Known (r : ResolvedInputs) (name : String) : Prop :=
  name ∈ r.values.map Prod.fst ∨ name ∈ r.files.map Prod.fst ∨ ∃ e ∈ r.errors, e.input = name

namespace Input

variable {declarations : List InputDeclaration} {d : InputDeclaration} {input : Json}

/-- A value that hands over no payload is the empty list. -/
theorem eq_empty_of_carries {value : Json} (h : Carries value []) : value = .array [] := by
  cases h
  rfl

/-- Of the files of a declaration something is known if a payload is handed
over for them. -/
theorem known_file_iff (hnodup : (declarations.map InputDeclaration.name).Nodup)
    (hvalid : validate declarations input = .ok ()) (extractor : Option Extractor)
    (hd : d ∈ declarations) (hkind : d.kind = .file) :
    (resolve extractor declarations input).Known d.name ↔ handed input d ≠ [] := by
  have hsplit := split_of_validate hnodup extractor hvalid
  have hconserved := hsplit.conserved d hd hkind
  have hvalues : d.name ∉ (resolve extractor declarations input).values.map Prod.fst := by
    intro hmem
    obtain ⟨d', hd', hname, hkind', -⟩ := (hsplit.values d.name).mp hmem
    rw [List.inj_on_of_nodup_map hnodup hd' hd hname] at hkind'
    exact hkind' hkind
  have hfiles : d.name ∈ (resolve extractor declarations input).files.map Prod.fst
      ↔ 0 < ((resolve extractor declarations input).filesOf d.name).length := by
    rw [Table.mem_keys_iff, ResolvedInputs.filesOf]
    constructor
    · rintro ⟨files, hlookup⟩
      rw [hlookup]
      exact List.length_pos_of_ne_nil (of_lookup_files hnodup hlookup).1
    · intro hpos
      cases hlookup : (resolve extractor declarations input).files.lookup d.name with
      | none => simp [hlookup] at hpos
      | some files => exact ⟨files, rfl⟩
  have herrors : (∃ e ∈ (resolve extractor declarations input).errors, e.input = d.name)
      ↔ 0 < (resolve extractor declarations input).errors.countP
          (fun e => e.input == d.name) := by
    rw [List.countP_pos_iff]
    simp only [beq_iff_eq]
  rw [ResolvedInputs.Known, or_iff_right hvalues, hfiles, herrors, ← List.length_pos_iff]
  omega

/-- **What is required is known.** Of each required input of a valid input
something is known once it is resolved, unless it is one of files and the
list that is given for it is empty. -/
theorem required_known_iff (hnodup : (declarations.map InputDeclaration.name).Nodup)
    (hvalid : validate declarations input = .ok ()) (extractor : Option Extractor)
    (hd : d ∈ declarations) (hrequired : d.required = true) :
    (resolve extractor declarations input).Known d.name
      ↔ ¬(d.kind = .file ∧ input.field? d.name = some (.array [])) := by
  obtain ⟨value, hgiven⟩ := exists_given_of_required hvalid hd hrequired
  obtain ⟨hfield, hnull⟩ := given?_eq_some_iff.mp hgiven
  by_cases hkind : d.kind = .file
  · have hhands := hands_of_validate hvalid hd hkind
    rw [known_file_iff hnodup hvalid extractor hd hkind, not_and, hfield]
    constructor
    · rintro hne - hempty
      rw [Option.some.inj hempty] at hfield
      refine hne (Hands.handed_eq hkind ?_)
      rw [hfield]
      exact .value (.many [])
    · intro hne hnil
      rw [hnil, hfield] at hhands
      cases hhands with
      | null => exact hnull rfl
      | value hcarries => exact hne hkind (congrArg some (eq_empty_of_carries hcarries))
  · refine iff_of_true (.inl ?_) fun h => hkind h.1
    rw [mem_values_iff hnodup]
    exact ⟨d, hd, rfl, hkind, value, hfield, hnull⟩

/-- Files that are required. -/
def documents : List InputDeclaration :=
  [{ name := "docs", description := "", kind := .file, required := true }]

def documentsInput (payloads : List String) : Json :=
  .object [("docs", .array (payloads.map .string))]

/-- An empty list passes for required files, and no trace of them is left. -/
theorem required_files_vanish :
    (documents.map InputDeclaration.name).Nodup ∧
      validate documents (documentsInput []) = .ok () ∧
      ∃ d ∈ documents, d.required = true ∧
        ¬(resolve none documents (documentsInput [])).Known d.name := by
  refine ⟨by decide, rfl, documents[0], List.getElem_mem _, rfl, ?_⟩
  have hresolve : resolve none documents (documentsInput []) = .empty := rfl
  rw [hresolve]
  rintro (h | h | ⟨e, h, -⟩) <;> cases h

/-- A list with a payload leaves a trace, even if nothing can be read from
the payload. -/
theorem required_known_iff_unreadable :
    (documents.map InputDeclaration.name).Nodup ∧
      validate documents (documentsInput [""]) = .ok () ∧
      documents[0].required = true ∧
      (resolve none documents (documentsInput [""])).files = [] ∧
      (resolve none documents (documentsInput [""])).Known documents[0].name := by
  have hnodup : (documents.map InputDeclaration.name).Nodup := by decide
  have hvalid : validate documents (documentsInput [""]) = .ok () := rfl
  have hknown := required_known_iff hnodup hvalid none (List.getElem_mem Nat.one_pos) rfl
  refine ⟨hnodup, hvalid, rfl, by decide +kernel, hknown.mpr fun h => ?_⟩
  simp [documentsInput, documents, Json.field?] at h

end Input

end Ensemble
