import Ensemble.Input.Resolution
import Ensemble.Input.Schema
import Ensemble.Proofs.Except

/-!
# What a check lets through

A check looks at the values of the declared names and at nothing else
(`validate_congr`). What it lets through is fit to be resolved: a required
value is there (`exists_given_of_required`), and the value of a file is one
payload or a list of payloads, in which nothing has to be passed over
(`hands_of_validate`).
-/

namespace Ensemble.Input

variable {declarations : List InputDeclaration} {d : InputDeclaration} {input value : Json}
  {ps : List String}

/-! ## Single values -/

/-- A value that hands over payloads: one text, or a list of texts. -/
inductive Carries : Json → List String → Prop
  | one (payload : String) : Carries (.string payload) [payload]
  | many (payloads : List String) : Carries (.array (payloads.map .string)) payloads

theorem Carries.payloads_eq (h : Carries value ps) : payloads value = ps := by
  cases h with
  | one payload => rfl
  | many payloads =>
      show (ps.map Json.string).filterMap Json.string? = ps
      rw [List.filterMap_map]
      exact List.filterMap_some

/-- A list of texts is one of strings. -/
theorem eq_map_string {items : List Json} (h : ∀ v ∈ items, v.string?.isSome = true) :
    items = (items.filterMap Json.string?).map .string := by
  induction items with
  | nil => rfl
  | cons v rest ih =>
      obtain ⟨hv, hrest⟩ := List.forall_mem_cons.mp h
      cases v with
      | string s => simpa [Json.string?] using ih hrest
      | _ => simp [Json.string?] at hv

/-- A value that is good for a file hands over its payloads. -/
theorem carries_of_fits (h : mismatch? .file value = none) : Carries value (payloads value) := by
  cases value with
  | string payload => exact .one payload
  | array items =>
      have hitems : ∀ v ∈ items, v.string?.isSome = true := by
        simpa [mismatch?, Option.isSome_iff_ne_none] using h
      have hcarries := Carries.many (items.filterMap Json.string?)
      rwa [← eq_map_string hitems] at hcarries
  | _ => simp [mismatch?] at h

/-- A given value passes if it is good for its kind. -/
theorem check_some_eq_ok_iff (hnull : value ≠ .null) :
    check d (some value) = .ok () ↔ mismatch? d.kind value = none := by
  cases hmismatch : mismatch? d.kind value with
  | some reason =>
      cases value with
      | null => exact absurd rfl hnull
      | _ => simp [check, hmismatch]
  | none =>
      cases value with
      | null => exact absurd rfl hnull
      | _ => simp [check, hmismatch]

/-- A value may be left out if it is not required. -/
theorem check_absent_eq_ok_iff :
    (check d none = .ok () ↔ d.required = false) ∧
      (check d (some .null) = .ok () ↔ d.required = false) := by
  cases hrequired : d.required <;> simp [check, hrequired]

/-! ## Whole inputs -/

/-- In an input that passes, the value of every declaration does. -/
theorem check_of_validate (hvalid : validate declarations input = .ok ())
    (hd : d ∈ declarations) : check d (input.field? d.name) = .ok () := by
  cases input with
  | object fields => exact forM_eq_ok_iff.mp hvalid d hd
  | null =>
      have hall : ∀ d ∈ declarations, d.required = false := by simpa [validate] using hvalid
      exact check_absent_eq_ok_iff.1.mpr (hall d hd)
  | _ => cases hvalid

/-- Names that are not declared do not matter to a check. -/
theorem validate_congr {fields fields' : List (String × Json)}
    (h : ∀ d ∈ declarations, fields.lookup d.name = fields'.lookup d.name) :
    validate declarations (.object fields) = validate declarations (.object fields') := by
  simp only [validate, List.forM_eq_forM]
  induction declarations with
  | nil => rfl
  | cons d rest ih =>
      obtain ⟨hd, hrest⟩ := List.forall_mem_cons.mp h
      rw [List.forM_cons, List.forM_cons, hd, ih hrest]

/-! ## What resolving relies on -/

/-- What an input has for a name, and the payloads that this hands over: none
if it is left out. -/
inductive Hands : Option Json → List String → Prop
  | leftOut : Hands none []
  | null : Hands (some .null) []
  | value {value : Json} {ps : List String} : Carries value ps → Hands (some value) ps

/-- The value that an input gives for a declaration; null counts as none. -/
def given? (input : Json) (d : InputDeclaration) : Option Json :=
  (input.field? d.name).filter fun value => !value.isNull

theorem given?_eq_some_iff :
    given? input d = some value ↔ input.field? d.name = some value ∧ value ≠ .null := by
  rw [given?, Option.filter_eq_some_iff]
  cases value <;> simp [Json.isNull]

/-- The payloads that an input gives for a declaration: those of a file. -/
def handed (input : Json) (d : InputDeclaration) : List String :=
  if d.kind = .file then ((given? input d).map payloads).getD [] else []

theorem Hands.handed_eq (hkind : d.kind = .file) (h : Hands (input.field? d.name) ps) :
    handed input d = ps := by
  rw [handed, if_pos hkind, given?]
  generalize input.field? d.name = field at h
  cases h with
  | leftOut => rfl
  | null => rfl
  | @value value ps hvalue =>
      have hgiven : (some value).filter (fun value => !value.isNull) = some value := by
        cases hvalue <;> rfl
      rw [hgiven]
      exact hvalue.payloads_eq

/-- What is given for a file hands over payloads. -/
theorem hands_of_validate (hvalid : validate declarations input = .ok ()) (hd : d ∈ declarations)
    (hkind : d.kind = .file) : Hands (input.field? d.name) (handed input d) := by
  have hcheck := check_of_validate hvalid hd
  have hhands : ∃ ps, Hands (input.field? d.name) ps := by
    cases hfield : input.field? d.name with
    | none => exact ⟨[], .leftOut⟩
    | some value =>
        by_cases hnull : value = .null
        · subst hnull
          exact ⟨[], .null⟩
        · rw [hfield, check_some_eq_ok_iff hnull, hkind] at hcheck
          exact ⟨_, .value (carries_of_fits hcheck)⟩
  obtain ⟨ps, hps⟩ := hhands
  rwa [hps.handed_eq hkind]

/-- What is required is given. -/
theorem exists_given_of_required (hvalid : validate declarations input = .ok ())
    (hd : d ∈ declarations) (hrequired : d.required = true) :
    ∃ value, given? input d = some value := by
  have hcheck := check_of_validate hvalid hd
  cases hfield : input.field? d.name with
  | none =>
      rw [hfield, check_absent_eq_ok_iff.1, hrequired] at hcheck
      cases hcheck
  | some value =>
      refine ⟨value, given?_eq_some_iff.mpr ⟨hfield, ?_⟩⟩
      rintro rfl
      rw [hfield, check_absent_eq_ok_iff.2, hrequired] at hcheck
      cases hcheck

end Ensemble.Input
