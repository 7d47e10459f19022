import Ensemble.Proofs.Compile.Injection
import Ensemble.Proofs.Input.Partition
import Ensemble.Proofs.Media.Payload

/-!
# Images in messages

An image is not read: a payload that spells one is handed on in base64, so
the part of a message that it becomes is the plain spelling of the very
bytes that were given (`resolveFile_eq_image_iff`). The image parts of a
compiled call are those of the inputs that its template asks for, and no
others (`image_mem_content_iff`). `payloads_exact` puts decoding and
compiling together.
-/

namespace Ensemble

open Payload

/-! ## Files -/

namespace Input

variable {extractor : Option Extractor} {declarations : List InputDeclaration} {input : Json}
  {name payload mime data : String}

/-- A text that spells an image of some bytes, which `data` spells plainly. -/
def SpellsImage (payload mime data : String) : Prop :=
  ∃ bytes, bytes ≠ [] ∧ Spells bytes payload.toList mime ∧
    data = String.ofList (Base64.spelling bytes) ∧ "image/".toList <+: mime.toList

theorem resolveFile_eq_image_iff :
    resolveFile extractor payload = .ok (.image mime data) ↔ SpellsImage payload mime data := by
  rw [resolveFile]
  constructor
  · intro h
    split at h
    · cases h
    · rename_i p hp
      obtain ⟨hne, hdata, hspells⟩ := decode_eq_ok_iff.mp hp
      split at h
      · rename_i himage
        obtain ⟨rfl, rfl⟩ := ResolvedFile.image.inj (Except.ok.inj h)
        exact ⟨p.bytes, hne, hspells, hdata, List.isPrefixOf_iff_prefix.mp himage⟩
      · -- all other files are texts
        exfalso
        repeat' split at h
        all_goals cases h
  · rintro ⟨bytes, hne, hspells, rfl, himage⟩
    have hdecode : decode payload
        = .ok { mime, base64 := String.ofList (Base64.spelling bytes), bytes } :=
      decode_eq_ok_iff.mpr ⟨hne, rfl, hspells⟩
    rw [hdecode]
    exact if_pos (List.isPrefixOf_iff_prefix.mpr himage)

theorem image_mem_filesGiven_iff {d : InputDeclaration} :
    ResolvedFile.image mime data ∈ filesGiven extractor input d ↔
      ∃ payload ∈ handed input d, SpellsImage payload mime data := by
  rw [filesGiven, entries, List.filterMap_map, List.mem_filterMap]
  refine exists_congr fun payload => and_congr_right fun _ => ?_
  refine Iff.trans ?_ (resolveFile_eq_image_iff : resolveFile extractor payload = _ ↔ _)
  rw [Function.comp_apply, entry]
  cases resolveFile extractor payload with
  | error fault => simp [Except.mapError, Entry.file?]
  | ok file => exact ⟨fun h => congrArg Except.ok (Option.some.inj h), fun h =>
      congrArg some (Except.ok.inj h)⟩

/-- The images of a name are those that its declaration was given. -/
theorem image_mem_filesOf_iff (hnodup : (declarations.map InputDeclaration.name).Nodup) :
    ResolvedFile.image mime data ∈ (resolve extractor declarations input).filesOf name ↔
      ∃ d ∈ declarations, d.name = name ∧
        ∃ payload ∈ handed input d, SpellsImage payload mime data := by
  constructor
  · intro h
    cases hdeclared : declared? declarations name with
    | none =>
        rw [ResolvedInputs.filesOf, lookup_files hnodup, hdeclared] at h
        cases h
    | some d =>
        obtain ⟨hd, rfl⟩ := (declared?_eq_some_iff hnodup).mp hdeclared
        rw [filesOf_resolve hnodup hd] at h
        exact ⟨d, hd, rfl, image_mem_filesGiven_iff.mp h⟩
  · rintro ⟨d, hd, rfl, hpayload⟩
    rw [filesOf_resolve hnodup hd]
    exact image_mem_filesGiven_iff.mpr hpayload

end Input

/-! ## Messages -/

namespace Compile

open Input

variable {master : MasterAgent} {key : Option String} {f : FlowDefinition}
  {extractor : Option Extractor} {input : Json} {injectsAll : Bool} {plan : Plan}
  {template mime data : String}

/-- Whether a call with a template is given the files of a name. -/
def Asks (injectsAll : Bool) (template name : String) : Prop :=
  name ∈ Template.names template ∨ Template.names template = [] ∧ injectsAll = true

theorem image_mem_textParts {text : String} : Part.image mime data ∉ textParts text := by
  rw [textParts]
  split
  · exact List.not_mem_nil
  · simp

theorem image_mem_map_part {files : List ResolvedFile} :
    Part.image mime data ∈ files.map part ↔ ResolvedFile.image mime data ∈ files := by
  rw [List.mem_map]
  constructor
  · rintro ⟨file, hfile, hpart⟩
    cases file with
    | image mime' data' =>
        obtain ⟨rfl, rfl⟩ := Part.image.inj hpart
        exact hfile
    | text mime' text => cases hpart
  · intro h
    exact ⟨_, h, rfl⟩

/-- The images behind the text of a template are those of the names that it asks for. -/
theorem image_mem_injected_iff {s : Scope} :
    Part.image mime data ∈ s.injected template ↔
      ∃ name, (name ∈ Template.names template ∨ Template.names template = [] ∧
          s.injectsAll = true ∧ ∃ d ∈ s.declarations, d.name = name) ∧
        ResolvedFile.image mime data ∈ s.inputs.filesOf name := by
  by_cases hnames : Template.names template = []
  · have hvariables : ∀ name, Part.image mime data ∉ s.variableParts name := by
      intro name
      rw [Scope.variableParts]
      split <;> simp
    rw [Scope.injected_of_no_names hnames]
    cases s.injectsAll with
    | false => simp [hnames]
    | true =>
        simp [hnames, hvariables, Scope.fileParts_eq, image_mem_map_part]
  · rw [Scope.injected_of_names hnames, image_mem_map_part, List.mem_flatMap]
    simp [hnames, (Template.firsts_placeholders template).mem]

theorem image_mem_content_iff (hnodup : (master.inputs.map InputDeclaration.name).Nodup)
    (name agent : String) :
    Part.image mime data ∈ (compiledCall
        (scopeOf master (resolve extractor master.inputs input) injectsAll) name agent
        (some template)).message.content ↔
      ∃ d ∈ master.inputs, Asks injectsAll template d.name ∧
        ∃ payload ∈ handed input d, SpellsImage payload mime data := by
  rw [compiledCall, Option.getD_some, content_message, List.mem_append,
    or_iff_right image_mem_textParts, image_mem_injected_iff]
  simp only [scopeOf, image_mem_filesOf_iff hnodup]
  constructor
  · rintro ⟨name, hasks, d, hd, rfl, hpayload⟩
    refine ⟨d, hd, ?_, hpayload⟩
    rcases hasks with hname | ⟨hnames, hall, -⟩
    · exact .inl hname
    · exact .inr ⟨hnames, hall⟩
  · rintro ⟨d, hd, hasks, hpayload⟩
    refine ⟨d.name, ?_, d, hd, rfl, hpayload⟩
    rcases hasks with hname | ⟨hnames, hall⟩
    · exact .inl hname
    · exact .inr ⟨hnames, hall, d, hd, rfl⟩

/-- **Payloads are exact in both directions.** What is decoded has a spelling
in base64, which is what the payload holds, and every text that spells some
bytes, with blanks anywhere, bare or as a data URL, is decoded to them. So
the images in the messages of a plan are the payloads that spell images, as
the plain base64 of their bytes: of the inputs that a template names, or of
all if it names none and this is not turned off. -/
theorem payloads_exact :
    (∀ (text : String) (p : Payload), Payload.decode text = .ok p ↔
      p.bytes ≠ [] ∧ p.base64 = String.ofList (Base64.spelling p.bytes) ∧
        Spells p.bytes text.toList p.mime) ∧
    ∀ (master : MasterAgent) (key : Option String) (f : FlowDefinition)
      (extractor : Option Extractor) (input : Json) (injectsAll : Bool) (plan : Plan),
      master.validate = .ok () → master.flow key = .ok f →
      compile master key (resolve extractor master.inputs input) injectsAll = .ok plan →
      List.Forall₂ (fun leaf c => ∀ mime data, Part.image mime data ∈ c.message.content ↔
          ∃ d ∈ master.inputs, Asks injectsAll leaf.2 d.name ∧
            ∃ payload ∈ handed input d, SpellsImage payload mime data)
        f.flow.leaves plan.root.calls := by
  refine ⟨fun text p => decode_eq_ok_iff, ?_⟩
  intro master key f extractor input injectsAll plan hvalid hflow hplan
  have hnodup := (MasterAgent.validate_eq_ok_iff.mp hvalid).inputs
  rw [Node.leaves_eq_sites f.name f.flow, calls_eq hflow hplan, List.forall₂_map_left_iff,
    List.forall₂_map_right_iff, List.forall₂_same]
  exact fun call _ mime data => image_mem_content_iff hnodup call.1 call.2.1

/-- A call for a photo. -/
def gallery : MasterAgent :=
  { sequenceOf ["a"] [.agentCall "a" (some "See {{ photo }}")] with
    inputs := [{ name := "photo", description := "", kind := .file, required := true }] }

/-- The first bytes of a picture, with blanks before the header and between the groups. -/
def photo : String := " data:image/png;base64,iVBO\nRw=="

theorem payloads_exact_photo :
    Payload.decode photo = .ok
      { mime := "image/png", base64 := "iVBORw==", bytes := [0x89, 0x50, 0x4E, 0x47] } ∧
    gallery.validate = .ok () ∧
    ∃ plan, compile gallery none
        (resolve none gallery.inputs (.object [("photo", .string photo)])) true = .ok plan ∧
      ∃ c, plan.root.calls = [c] ∧ Part.image "image/png" "iVBORw==" ∈ c.message.content := by
  have htext : Spaced (Base64.spelling [0x89, 0x50, 0x4E, 0x47]) "iVBO\nRw==".toList :=
    (spaced_iff fun c => Base64.not_blank_of_mem_spelling).mpr (by decide)
  have hspells : Spells [0x89, 0x50, 0x4E, 0x47] photo.toList "image/png" :=
    @Spells.url _ [' '] "image/png".toList _ (List.all_eq_true.mp rfl) (by decide) htext
  obtain ⟨hdecode, hplans⟩ := payloads_exact
  refine ⟨(hdecode ..).mpr ⟨by decide, by decide, hspells⟩, rfl, ?_⟩
  obtain ⟨plan, hplan⟩ : ∃ plan, compile gallery none
      (resolve none gallery.inputs (.object [("photo", .string photo)])) true = .ok plan := ⟨_, rfl⟩
  have hcalls := hplans gallery none gallery.flows[0] none _ true plan rfl rfl hplan
  obtain ⟨c, rest, hcontent, hrest, hcs⟩ := List.forall₂_cons_left_iff.mp hcalls
  obtain rfl := List.forall₂_nil_left_iff.mp hrest
  have hasks : Asks true "See {{ photo }}" "photo" := .inl (by decide +kernel)
  have himage : SpellsImage photo "image/png" "iVBORw==" :=
    ⟨_, by decide, hspells, by decide, by decide⟩
  exact ⟨plan, hplan, c, hcs, (hcontent "image/png" "iVBORw==").mpr
    ⟨_, List.mem_singleton_self _, hasks, photo, List.mem_singleton_self _, himage⟩⟩

end Compile

end Ensemble
