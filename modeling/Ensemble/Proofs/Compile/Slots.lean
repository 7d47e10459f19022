import Ensemble.Proofs.Compile.Messages
import Ensemble.Proofs.Input.Resolution
import Ensemble.Proofs.Template.Holes

/-!
# Slots of compiled calls

Binding passes over a slot that does not fit its text, and crashes on one
that ends before it starts. Neither happens to a compiled call: its slots
mark the open holes of its text (`Slot.Marks`), one behind the other, so
each of them is asked for (`compiled_slots_sound`). Which holes are open is
a matter of what is declared and not of the values that are given.
-/

namespace Ensemble

open Text Template

/-- A slot that marks a hole of its name in a text. -/
structure Slot.Marks (slot : Slot) (text : String) : Prop where
  part : slot.part = 0
  lt : slot.start < slot.stop
  le_size : slot.stop ≤ text.utf8ByteSize
  boundary_start : isBoundary text.toList slot.start = true
  boundary_stop : isBoundary text.toList slot.stop = true
  /-- The bytes between are one hole as it may be spelled. -/
  spells : ∃ h : Hole, h.Proper ∧ h.key = slot.name ∧
    ∃ before after, text.toList = before ++ h.spelling ++ after ∧
      byteSize before = slot.start ∧ byteSize (before ++ h.spelling) = slot.stop

/-- One slot lies behind another one. -/
def Slot.Precedes (a b : Slot) : Prop := a.start < b.start ∧ a.stop ≤ b.start

namespace Template

variable {template : String} {lookup : String → Option String} {slot : Slot}

theorem marks_of_mem_slots (hmem : slot ∈ slots template lookup) :
    slot.Marks (render template lookup) := by
  obtain ⟨h, before, after, hh, htext, rfl⟩ := spelled_of_mem_slotsFrom hmem
  have htext : (render template lookup).toList = before ++ h.spelling ++ after := by
    rw [render, String.toList_ofList, htext]
  simp only [Nat.zero_add]
  refine ⟨rfl, ?_, ?_, ?_, ?_, h, proper_of_mem_segmentsFrom hh, rfl, before, after, htext, rfl,
    rfl⟩
  · have hpos := h.byteSize_spelling_pos
    simp only [byteSize_append]
    omega
  · rw [← byteSize_toList, htext, byteSize_append (before ++ h.spelling)]
    exact Nat.le_add_right ..
  · rw [htext, List.append_assoc]
    exact isBoundary_append ..
  · rw [htext]
    exact isBoundary_append ..

theorem slots_precede (template : String) (lookup : String → Option String) :
    (slots template lookup).Pairwise Slot.Precedes := by
  refine (slotsFrom_ordered lookup 0 (segments template.toList)).imp_of_mem ?_
  intro a b ha hb hle
  exact ⟨Nat.lt_of_lt_of_le (marks_of_mem_slots ha).lt hle, hle⟩

end Template

namespace Compile

/-- The names of a template that stay open: no variable, and not declared. -/
def Scope.openNames (s : Scope) (template : String) : List String :=
  (names template).filter fun name => (s.inputs.values.lookup name).isNone && !s.isDeclared name

theorem Scope.openNames_eq (s : Scope) (template : String) :
    s.openNames template = (names template).filter fun name => (s.value? name).isNone := by
  refine List.filter_congr fun name _ => ?_
  unfold Scope.value?
  cases s.inputs.values.lookup name with
  | some value => rfl
  | none => cases s.isDeclared name <;> rfl

/-- A call whose slots fit its message: they mark the open holes of its
text, and binding asks for all of them, from the last to the first. -/
structure SoundSlots (s : Scope) (template : String) (c : Call) : Prop where
  text : c.slots ≠ [] → c.message.content[0]? = some (.text (render template s.value?))
  marks : ∀ slot ∈ c.slots, slot.Marks (render template s.value?)
  precede : c.slots.Pairwise Slot.Precedes
  names : c.slots.map Slot.name = s.openNames template
  /-- `Call.Binds` lists the names that were asked for with the latest one first. -/
  binds : ∀ lookup, ∃ content, c.Binds lookup content (c.slots.map Slot.name)

section

variable (s : Scope) (name agent : String) (input : Option String)

/-- A blank text has no hole, so leaving it out leaves no slot behind. -/
theorem compiledCall_slots :
    (compiledCall s name agent input).slots = slots (input.getD "") s.value? := by
  rw [compiledCall, message_eq]
  split
  · rename_i hblank
    refine (List.eq_nil_iff_forall_not_mem.mpr fun slot hslot => ?_).symm
    rw [not_blank_of_mem_slots hslot] at hblank
    cases hblank
  · rfl

theorem compiledCall_names :
    (compiledCall s name agent input).slots.map Slot.name = s.openNames (input.getD "") := by
  rw [compiledCall_slots, slots, map_name_slotsFrom, Scope.openNames_eq]
  rfl

theorem compiledCall_text (hne : (compiledCall s name agent input).slots ≠ []) :
    (compiledCall s name agent input).message.content[0]?
      = some (.text (render (input.getD "") s.value?)) := by
  obtain ⟨slot, hslot⟩ := List.exists_mem_of_ne_nil _ hne
  rw [compiledCall_slots] at hslot
  have hblank := not_blank_of_mem_slots hslot
  rw [compiledCall, message_eq, if_neg (Bool.eq_false_iff.mp hblank)]
  rfl

theorem compiledCall_binds (lookup : String → Option String) :
    ∃ content, (compiledCall s name agent input).Binds lookup content
      ((compiledCall s name agent input).slots.map Slot.name) := by
  obtain ⟨-, -, hsends⟩ := compiledCall_sends s name agent input
  have hbinds := hsends lookup
  split at hbinds
  · rename_i hblank
    have hnone : (compiledCall s name agent input).slots = [] := by
      rw [compiledCall, message_eq, if_pos hblank]
    rw [hnone]
    exact ⟨_, hbinds⟩
  · rw [compiledCall_names, Scope.openNames_eq]
    exact ⟨_, hbinds⟩

theorem compiledCall_sound :
    SoundSlots s (input.getD "") (compiledCall s name agent input) where
  text := compiledCall_text s name agent input
  marks slot hslot := by
    rw [compiledCall_slots] at hslot
    exact marks_of_mem_slots hslot
  precede := by
    rw [compiledCall_slots]
    exact slots_precede ..
  names := compiledCall_names s name agent input
  binds := compiledCall_binds s name agent input

end

/-! ## Slots of plans -/

end Compile

/-- The names that the calls of a plan leave open, call by call. -/
def Plan.openNames (p : Plan) : List (List String) :=
  p.root.calls.map fun c => c.slots.map Slot.name

namespace Compile

variable {master : MasterAgent} {key : Option String} {f : FlowDefinition}
  {inputs : ResolvedInputs} {injectsAll : Bool} {plan : Plan}

theorem compiled_sound (hflow : master.flow key = .ok f)
    (hplan : compile master key inputs injectsAll = .ok plan) :
    List.Forall₂ (fun leaf c => SoundSlots (scopeOf master inputs injectsAll) leaf.2 c)
      f.flow.leaves plan.root.calls := by
  obtain ⟨f', hflow', hroot, -⟩ := compile_eq_ok hplan
  obtain rfl := Except.ok.inj (hflow.symm.trans hflow')
  exact step_leaves (compiledCall_sound _) hroot

/-- What a plan leaves open can be read off the templates. -/
theorem compiled_openNames (hflow : master.flow key = .ok f)
    (hplan : compile master key inputs injectsAll = .ok plan) :
    plan.openNames
      = f.flow.leaves.map fun leaf => (scopeOf master inputs injectsAll).openNames leaf.2 := by
  rw [Plan.openNames, ← List.forall₂_eq_eq_eq, List.forall₂_map_left_iff,
    List.forall₂_map_right_iff]
  exact ((compiled_sound hflow hplan).imp fun _ _ hsound => hsound.names).flip

/-- **Slots are sound.** The slots of every compiled call mark the open
holes of its text and none is passed over when it is bound. Which holes are
open does not depend on the values of variables, nor on anything but the
declarations if the variables are those of an input. -/
theorem compiled_slots_sound (hflow : master.flow key = .ok f)
    (hplan : compile master key inputs injectsAll = .ok plan) :
    List.Forall₂ (fun leaf c => SoundSlots (scopeOf master inputs injectsAll) leaf.2 c)
        f.flow.leaves plan.root.calls ∧
      (∀ (inputs' : ResolvedInputs) (injectsAll' : Bool) (plan' : Plan),
        compile master key inputs' injectsAll' = .ok plan' →
        (∀ name, (inputs'.values.lookup name).isSome = (inputs.values.lookup name).isSome) →
        plan'.openNames = plan.openNames) ∧
      ∀ (extractor : Option Extractor) (input : Json),
        inputs = Input.resolve extractor master.inputs input →
        plan.openNames = f.flow.leaves.map fun leaf =>
          (names leaf.2).filter fun name => !master.inputs.any fun d => d.name == name := by
  refine ⟨compiled_sound hflow hplan, ?_, ?_⟩
  · intro inputs' injectsAll' plan' hplan' hsame
    rw [compiled_openNames hflow hplan', compiled_openNames hflow hplan]
    refine List.map_congr_left fun leaf _ => List.filter_congr fun name _ => ?_
    have hnone : (inputs'.values.lookup name).isNone = (inputs.values.lookup name).isNone := by
      rw [← Option.not_isSome, ← Option.not_isSome, hsame]
    exact congrArg (· && _) hnone
  · rintro extractor input rfl
    rw [compiled_openNames hflow hplan]
    refine List.map_congr_left fun leaf _ => List.filter_congr fun name _ => ?_
    -- a variable is declared, so it is left out either way
    cases hvalue : (Input.resolve extractor master.inputs input).values.lookup name with
    | none => simp only [scopeOf, Scope.isDeclared, hvalue, Option.isNone_none, Bool.true_and]
    | some text =>
        obtain ⟨d, hd, hname, -⟩ := Input.variable_of_resolve hvalue
        have hdeclared : (master.inputs.any fun d => d.name == name) = true :=
          List.any_eq_true.mpr ⟨d, hd, beq_iff_eq.mpr hname⟩
        simp only [scopeOf, Scope.isDeclared, hvalue, hdeclared, Bool.not_true, Bool.and_false]

/-- The agents of `askAbout`, with `x` declared. -/
def askDeclared : MasterAgent :=
  { askAbout with
    inputs := [{ name := "x", description := "", kind := .shortText, required := false }] }

/-- A text for `x`. -/
def askInputs (text : String) : ResolvedInputs :=
  { values := [("x", text)], files := [], errors := [] }

/-- A value with braces and a wide character of its own moves the slot, and
opens no other. -/
theorem compiled_slots_sound_askDeclared :
    ∃ plan plan', compile askDeclared none (askInputs "é{{y}}") true = .ok plan ∧
      compile askDeclared none (askInputs "") false = .ok plan' ∧
      plan.root.calls.map Call.slots
        = [[], [], [{ part := 0, start := 9, stop := 16, name := "a" }]] ∧
      plan.openNames = [[], [], ["a"]] ∧ plan'.openNames = plan.openNames ∧
      List.Forall₂
        (fun leaf c => SoundSlots (scopeOf askDeclared (askInputs "é{{y}}") true) leaf.2 c)
        [("a", "one"), ("a", "two"), ("b", "{{x}}: {{ a }}")] plan.root.calls := by
  obtain ⟨plan, hplan⟩ : ∃ plan, compile askDeclared none (askInputs "é{{y}}") true = .ok plan :=
    ⟨_, rfl⟩
  obtain ⟨plan', hplan'⟩ : ∃ plan, compile askDeclared none (askInputs "") false = .ok plan :=
    ⟨_, rfl⟩
  obtain ⟨hsound, hsame, hresolved⟩ := compiled_slots_sound rfl hplan
  have hopen : plan.openNames = [[], [], ["a"]] := by
    rw [hresolved none (.object [("x", .string "é{{y}}")]) (by decide +kernel)]
    decide +kernel
  refine ⟨plan, plan', hplan, hplan', ?_, hopen, hsame _ false plan' hplan' fun name => ?_, hsound⟩
  · obtain rfl := Except.ok.inj hplan
    decide +kernel
  · simp only [askInputs, Table.lookup_cons]
    split <;> rfl

end Compile

end Ensemble
