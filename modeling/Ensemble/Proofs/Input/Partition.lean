import Ensemble.Proofs.Input.Resolution

/-!
# Splitting inputs

A valid input is split without loss (`Split`): a declared name is a variable,
or has files, or neither, and each payload comes to one file or to one error
of its input, in the order in which the payloads were given. A payload has
no influence on what others come to (`DifferAt`), and names that are not
declared have none at all. `resolve_splits` puts this together.
-/

namespace Ensemble.Input

/-- What a valid input is split into. -/
structure Split (extractor : Option Extractor) (declarations : List InputDeclaration)
    (input : Json) (r : ResolvedInputs) : Prop where
  /-- A name has one value, and one list of files. -/
  keys : (r.values.map Prod.fst).Nodup ∧ (r.files.map Prod.fst).Nodup
  values : ∀ name, name ∈ r.values.map Prod.fst ↔
    ∃ d ∈ declarations, d.name = name ∧ d.kind ≠ .file ∧
      ∃ value, input.field? name = some value ∧ value ≠ .null
  files : ∀ given ∈ r.files, given.2 ≠ [] ∧
    ∃ d ∈ declarations, d.name = given.1 ∧ d.kind = .file
  disjoint : ∀ name ∈ r.values.map Prod.fst, name ∉ r.files.map Prod.fst
  /-- The payloads of a file are all that is given for it. -/
  handed : ∀ d ∈ declarations, d.kind = .file → Hands (input.field? d.name) (handed input d)
  /-- Payloads that come to files, in their order. -/
  filesOf : ∀ d ∈ declarations, d.kind = .file →
    r.filesOf d.name
      = ((Input.handed input d).map (entry extractor d.name)).filterMap Entry.file?
  /-- Payloads that come to errors, declaration by declaration. -/
  errors : r.errors = declarations.flatMap fun d =>
    ((Input.handed input d).map (entry extractor d.name)).filterMap Entry.error?
  /-- No payload is lost and none counts twice. -/
  conserved : ∀ d ∈ declarations, d.kind = .file →
    (r.filesOf d.name).length + r.errors.countP (fun e => e.input == d.name)
      = (Input.handed input d).length

/-- Two results that differ in what one payload of an input comes to, and in
nothing else. -/
structure DifferAt (name : String) (own own' : Entry) (r r' : ResolvedInputs) : Prop where
  values : r'.values = r.values
  others : ∀ other ≠ name, r'.files.lookup other = r.files.lookup other
  files : ∃ before after,
    r.filesOf name = before ++ own.file?.toList ++ after ∧
      r'.filesOf name = before ++ own'.file?.toList ++ after
  errors : ∃ before after,
    r.errors = before ++ own.error?.toList ++ after ∧
      r'.errors = before ++ own'.error?.toList ++ after

variable {extractor : Option Extractor} {declarations : List InputDeclaration}
  {d : InputDeclaration} {input input' : Json}

/-! ## What is there -/

theorem ascending_resolve (extractor : Option Extractor) (declarations : List InputDeclaration)
    (input : Json) :
    Table.Ascending (resolve extractor declarations input).values ∧
      Table.Ascending (resolve extractor declarations input).files := by
  rw [resolve_eq]
  exact ⟨ascending_settled Table.ascending_nil, ascending_settled Table.ascending_nil⟩

section

variable (hnodup : (declarations.map InputDeclaration.name).Nodup)

include hnodup

/-- The declarations around one have other names. -/
theorem exists_around (hd : d ∈ declarations) : ∃ ds ds', declarations = ds ++ d :: ds' ∧
    (∀ other ∈ ds, other.name ≠ d.name) ∧ ∀ other ∈ ds', other.name ≠ d.name := by
  obtain ⟨ds, ds', rfl⟩ := List.append_of_mem hd
  rw [List.map_append, List.map_cons, List.nodup_append, List.nodup_cons] at hnodup
  obtain ⟨-, ⟨hnew, -⟩, hds⟩ := hnodup
  refine ⟨ds, ds', rfl, fun other hother => ?_, fun other hother heq => ?_⟩
  · exact hds _ (List.mem_map_of_mem hother) _ (List.mem_cons_self ..)
  · exact hnew (heq ▸ List.mem_map_of_mem hother)

/-- The files of a declaration are those that its payloads come to. -/
theorem filesOf_resolve (hd : d ∈ declarations) :
    (resolve extractor declarations input).filesOf d.name = filesGiven extractor input d := by
  rw [ResolvedInputs.filesOf, lookup_files hnodup, (declared?_eq_some_iff hnodup).mpr ⟨hd, rfl⟩,
    Option.bind_some, files?]
  cases filesGiven extractor input d <;> rfl

/-- The errors that name a declaration are those that its payloads come to. -/
theorem countP_errors_resolve (hd : d ∈ declarations) :
    (resolve extractor declarations input).errors.countP (fun e => e.input == d.name)
      = (errorsGiven extractor input d).length := by
  have hown : ∀ (d' : InputDeclaration), ∀ e ∈ errorsGiven extractor input d',
      e.input = d'.name := by
    intro d' e he
    obtain ⟨own, hown, herror⟩ := List.mem_filterMap.mp he
    obtain ⟨payload, -, rfl⟩ := List.mem_map.mp hown
    exact input_of_error? herror
  have hothers : ∀ ds : List InputDeclaration, (∀ d' ∈ ds, d'.name ≠ d.name) →
      (ds.flatMap (errorsGiven extractor input)).countP (fun e => e.input == d.name) = 0 := by
    intro ds hds
    refine List.countP_eq_zero.mpr fun e he => ?_
    obtain ⟨d', hd', he⟩ := List.mem_flatMap.mp he
    rw [hown d' e he]
    simpa using hds d' hd'
  have hall : (errorsGiven extractor input d).countP (fun e => e.input == d.name)
      = (errorsGiven extractor input d).length :=
    List.countP_eq_length.mpr fun e he => by simpa using hown d e he
  obtain ⟨ds, ds', rfl, hds, hds'⟩ := exists_around hnodup hd
  rw [resolve_eq, List.flatMap_append, List.flatMap_cons, List.countP_append, List.countP_append,
    hothers ds hds, hothers ds' hds']
  omega

theorem mem_values_iff (name : String) :
    name ∈ (resolve extractor declarations input).values.map Prod.fst ↔
      ∃ d ∈ declarations, d.name = name ∧ d.kind ≠ .file ∧
        ∃ value, input.field? name = some value ∧ value ≠ .null := by
  rw [Table.mem_keys_iff]
  simp only [lookup_values hnodup, Option.bind_eq_some_iff, declared?_eq_some_iff hnodup,
    plain?_eq_some_iff]
  constructor
  · rintro ⟨text, d, ⟨hd, rfl⟩, hkind, value, hfield, hnull, -⟩
    exact ⟨d, hd, rfl, hkind, value, hfield, hnull⟩
  · rintro ⟨d, hd, rfl, hkind, value, hfield, hnull⟩
    exact ⟨value.plain, d, ⟨hd, rfl⟩, hkind, value, hfield, hnull, rfl⟩

theorem split_of_validate (extractor : Option Extractor)
    (hvalid : validate declarations input = .ok ()) :
    Split extractor declarations input (resolve extractor declarations input) where
  keys :=
    have hascending := ascending_resolve extractor declarations input
    ⟨hascending.1.nodup_keys, hascending.2.nodup_keys⟩
  values := mem_values_iff hnodup
  files := by
    rintro ⟨name, files⟩ hmem
    have hlookup := (ascending_resolve extractor declarations input).2.lookup_of_mem hmem
    obtain ⟨hne, hdeclared, -⟩ := of_lookup_files hnodup hlookup
    exact ⟨hne, hdeclared⟩
  disjoint := by
    intro name hvalue hfiles
    obtain ⟨files, hfiles⟩ := Table.mem_keys_iff.mp hfiles
    obtain ⟨text, hvalue⟩ := Table.mem_keys_iff.mp hvalue
    rw [(of_lookup_files hnodup hfiles).2.2] at hvalue
    cases hvalue
  handed d hd hkind := hands_of_validate hvalid hd hkind
  filesOf d hd _ := filesOf_resolve hnodup hd
  errors := by
    rw [resolve_eq]
    rfl
  conserved d hd _ := by
    rw [filesOf_resolve hnodup hd, countP_errors_resolve hnodup hd, filesGiven, errorsGiven,
      length_file?_add_error?, entries, List.length_map]

end

/-! ## What depends on what -/

theorem foldl_settle_congr {α : Type} {mine mine' : InputDeclaration → Option α}
    (h : ∀ d ∈ declarations, mine d = mine' d) (table : List (String × α)) :
    declarations.foldl (settle mine) table = declarations.foldl (settle mine') table :=
  List.foldl_ext _ _ _ fun table d hd => by rw [settle, settle, h d hd]

/-- The entries of a declaration depend on its own value only. -/
theorem entries_congr (h : given? input' d = given? input d) :
    entries extractor input' d = entries extractor input d := by
  rw [entries, entries, handed, handed, h]

theorem given?_congr (h : input'.field? d.name = input.field? d.name) :
    given? input' d = given? input d := by
  rw [given?, given?, h]

/-- All that is resolved is read off the values of the declared names. -/
theorem resolve_congr
    (h : ∀ d ∈ declarations, input'.field? d.name = input.field? d.name) :
    resolve extractor declarations input' = resolve extractor declarations input := by
  have hentries : ∀ d ∈ declarations, entries extractor input' d = entries extractor input d :=
    fun d hd => entries_congr (given?_congr (h d hd))
  rw [resolve_eq, resolve_eq]
  congr 1
  · exact foldl_settle_congr (fun d hd => by rw [plain?, plain?, given?_congr (h d hd)]) []
  · exact foldl_settle_congr
      (fun d hd => by rw [files?, files?, filesGiven, filesGiven, hentries d hd]) []
  · exact List.flatMap_congr fun d hd => by rw [errorsGiven, errorsGiven, hentries d hd]

/-- Entries around one that is replaced. -/
theorem entries_of_hands (extractor : Option Extractor) {before after : List String}
    {payload : String} (hkind : d.kind = .file)
    (h : Hands (input.field? d.name) (before ++ payload :: after)) :
    entries extractor input d = before.map (entry extractor d.name)
      ++ entry extractor d.name payload :: after.map (entry extractor d.name) := by
  rw [entries, h.handed_eq hkind, List.map_append, List.map_cons]

theorem filterMap_around {α β : Type} (f : α → Option β) (before after : List α) (a : α) :
    (before ++ a :: after).filterMap f
      = before.filterMap f ++ (f a).toList ++ after.filterMap f := by
  rw [List.filterMap_append, List.filterMap_cons, List.append_assoc]
  cases f a <;> rfl

section

variable {before after : List String} {payload payload' : String}
  (hnodup : (declarations.map InputDeclaration.name).Nodup) (hd : d ∈ declarations)
  (hkind : d.kind = .file) (hinput : Hands (input.field? d.name) (before ++ payload :: after))
  (hinput' : Hands (input'.field? d.name) (before ++ payload' :: after))
  (hothers : ∀ other ∈ declarations, other.name ≠ d.name →
    input'.field? other.name = input.field? other.name)

include hnodup hd hkind hothers

/-- A file gives no variable, so variables are the same for other files. -/
theorem values_of_replaced :
    (resolve extractor declarations input').values
      = (resolve extractor declarations input).values := by
  rw [resolve_eq, resolve_eq]
  refine foldl_settle_congr (fun other hother => ?_) []
  by_cases hname : other.name = d.name
  · rw [List.inj_on_of_nodup_map hnodup hother hd hname, plain?, plain?, if_pos hkind,
      if_pos hkind]
  · rw [plain?, plain?, given?_congr (hothers other hother hname)]

include hinput hinput'

/-- The errors before and behind the one of a payload do not depend on it. -/
theorem errors_of_replaced : ∃ earlier later,
    (resolve extractor declarations input).errors
        = earlier ++ (entry extractor d.name payload).error?.toList ++ later ∧
      (resolve extractor declarations input').errors
        = earlier ++ (entry extractor d.name payload').error?.toList ++ later := by
  obtain ⟨ds, ds', rfl, hds, hds'⟩ := exists_around hnodup hd
  have hsame : ∀ other ∈ ds ++ d :: ds', other.name ≠ d.name →
      errorsGiven extractor input' other = errorsGiven extractor input other :=
    fun other hother hne => by
      rw [errorsGiven, errorsGiven, entries_congr (given?_congr (hothers other hother hne))]
  have hbefore : ds.flatMap (errorsGiven extractor input')
      = ds.flatMap (errorsGiven extractor input) :=
    List.flatMap_congr fun other hother =>
      hsame other (List.mem_append_left _ hother) (hds other hother)
  have hafter : ds'.flatMap (errorsGiven extractor input')
      = ds'.flatMap (errorsGiven extractor input) :=
    List.flatMap_congr fun other hother =>
      hsame other (List.mem_append_right _ (List.mem_cons_of_mem _ hother)) (hds' other hother)
  refine ⟨ds.flatMap (errorsGiven extractor input)
      ++ (before.map (entry extractor d.name)).filterMap Entry.error?,
    (after.map (entry extractor d.name)).filterMap Entry.error?
      ++ ds'.flatMap (errorsGiven extractor input), ?_, ?_⟩
  · rw [resolve_eq, List.flatMap_append, List.flatMap_cons, errorsGiven,
      entries_of_hands extractor hkind hinput, filterMap_around]
    simp only [List.append_assoc]
  · rw [resolve_eq, List.flatMap_append, List.flatMap_cons, errorsGiven,
      entries_of_hands extractor hkind hinput', filterMap_around, hbefore, hafter]
    simp only [List.append_assoc]

/-- Another payload in the place of one changes what this one comes to, and
nothing else. -/
theorem differAt_of_replaced :
    DifferAt d.name (entry extractor d.name payload) (entry extractor d.name payload')
      (resolve extractor declarations input) (resolve extractor declarations input') where
  values := values_of_replaced hnodup hd hkind hothers
  others := by
    intro other hne
    rw [lookup_files hnodup, lookup_files hnodup]
    refine Option.bind_congr fun d' hd' => ?_
    obtain ⟨hmem, rfl⟩ := (declared?_eq_some_iff hnodup).mp hd'
    rw [files?, files?, filesGiven, filesGiven, entries_congr (given?_congr (hothers d' hmem hne))]
  files := by
    refine ⟨(before.map (entry extractor d.name)).filterMap Entry.file?,
      (after.map (entry extractor d.name)).filterMap Entry.file?, ?_, ?_⟩
    · rw [filesOf_resolve hnodup hd, filesGiven, entries_of_hands extractor hkind hinput,
        filterMap_around]
    · rw [filesOf_resolve hnodup hd, filesGiven, entries_of_hands extractor hkind hinput',
        filterMap_around]
  errors := errors_of_replaced hnodup hd hkind hinput hinput' hothers

end

/-- **Inputs are split without loss.** A valid input is split by its
declarations: variables and files have different names, and each payload
comes to one file or one error, whatever the extractor does and whether
there is one. Another payload in its place changes nothing but that, and
what is given for names that are not declared changes nothing. -/
theorem resolve_splits (hnodup : (declarations.map InputDeclaration.name).Nodup)
    (hvalid : validate declarations input = .ok ()) (extractor : Option Extractor) :
    Split extractor declarations input (resolve extractor declarations input) ∧
      (∀ d ∈ declarations, d.kind = .file →
        ∀ (input' : Json) (before after : List String) (payload payload' : String),
          Hands (input.field? d.name) (before ++ payload :: after) →
          Hands (input'.field? d.name) (before ++ payload' :: after) →
          (∀ other ∈ declarations, other.name ≠ d.name →
            input'.field? other.name = input.field? other.name) →
          DifferAt d.name (entry extractor d.name payload) (entry extractor d.name payload')
            (resolve extractor declarations input) (resolve extractor declarations input')) ∧
      ∀ fields fields' : List (String × Json),
        (∀ d ∈ declarations, fields'.lookup d.name = fields.lookup d.name) →
        validate declarations (.object fields') = validate declarations (.object fields) ∧
          resolve extractor declarations (.object fields')
            = resolve extractor declarations (.object fields) := by
  refine ⟨split_of_validate hnodup extractor hvalid, ?_, ?_⟩
  · intro d hd hkind input' before after payload payload' hinput hinput' hothers
    exact differAt_of_replaced hnodup hd hkind hinput hinput' hothers
  · intro fields fields' hsame
    exact ⟨validate_congr hsame, resolve_congr hsame⟩

/-- A text, and files of any number. -/
def mixed : List InputDeclaration :=
  [{ name := "topic", description := "", kind := .shortText, required := true },
    { name := "photos", description := "", kind := .file, required := false }]

/-- A payload that is no base64 and another one, which is. -/
def mixedInput (first : String) : Json :=
  .object [("extra", .bool true), ("photos", .array [.string first, .string "aGVsbG8="]),
    ("topic", .string "t")]

/-- The good payload is kept beside the bad one, and a good one in place of
the bad one joins it. -/
theorem resolve_splits_mixed :
    (mixed.map InputDeclaration.name).Nodup ∧ validate mixed (mixedInput "%%%%") = .ok () ∧
      resolve none mixed (mixedInput "%%%%")
        = { values := [("topic", "t")], files := [("photos", [.text "text/plain" "hello"])]
            errors := [{ input := "photos"
                         fault := .decode "Invalid symbol 37, offset 0." }] } ∧
      Split none mixed (mixedInput "%%%%") (resolve none mixed (mixedInput "%%%%")) ∧
      DifferAt "photos" (entry none "photos" "%%%%") (entry none "photos" "aGk=")
        (resolve none mixed (mixedInput "%%%%")) (resolve none mixed (mixedInput "aGk=")) ∧
      resolve none mixed (.object [("photos", .array [.string "%%%%", .string "aGVsbG8="]),
          ("topic", .string "t")])
        = resolve none mixed (mixedInput "%%%%") := by
  have hnodup : (mixed.map InputDeclaration.name).Nodup := by decide
  have hvalid : validate mixed (mixedInput "%%%%") = .ok () := rfl
  obtain ⟨hsplit, hreplaced, hundeclared⟩ := resolve_splits hnodup hvalid none
  refine ⟨hnodup, hvalid, by decide +kernel, hsplit, ?_, ?_⟩
  · refine hreplaced mixed[1] (List.getElem_mem _) rfl (mixedInput "aGk=") [] ["aGVsbG8="] _ _
      (.value (.many ["%%%%", "aGVsbG8="])) (.value (.many ["aGk=", "aGVsbG8="]))
      fun other hother hne => ?_
    rcases List.mem_cons.mp hother with rfl | hother
    · rfl
    · exact absurd (congrArg InputDeclaration.name (List.mem_singleton.mp hother)) hne
  · refine (hundeclared _ _ fun d hd => ?_).2
    rcases List.mem_cons.mp hd with rfl | hd
    · rfl
    · rw [List.mem_singleton.mp hd]
      rfl

end Ensemble.Input
