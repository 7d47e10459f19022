import Ensemble.Proofs.Compile.Names
import Ensemble.Proofs.Compile.Slots
import Ensemble.Proofs.Compile.Structure
import Ensemble.Proofs.Decimal.Digits
import Ensemble.Proofs.Plan.Visible
import Ensemble.Proofs.Template.Occurrences

/-!
# References to steps

A template refers to a step by a hole with the step's name. The grammar of
holes was made to admit the names that compiling gives to steps, but these
begin with the name of the flow and may end in the name of an agent, and
flows and agents may be called anything. So some steps cannot be referred to
(`free_names_unreferenceable`), and `steps_referenceable` says which can:
only the name of the flow, and of the agent that is called, count.
-/

namespace Ensemble

namespace Template

/-! ## Names that a hole can have -/

/-- The grammar of names, as the scanner reads them. -/
def isName (name : String) : Bool :=
  name.toList.head?.any isNameStart && name.toList.all isNameChar

/-- The hole of a name, without blanks. -/
def reference (name : String) : String := "\x7b\x7b" ++ name ++ "\x7d\x7d"

theorem proper_iff_isName {name : String} :
    Hole.Proper ⟨[], name.toList, []⟩ ↔ isName name = true := by
  rw [isName, Bool.and_eq_true, List.all_eq_true]
  constructor
  · rintro ⟨-, ⟨c, rest, hname, hstart⟩, hchars, -⟩
    dsimp only at hname
    exact ⟨by rw [hname]; exact hstart, hchars⟩
  · rintro ⟨hhead, hchars⟩
    refine ⟨by simp, ?_, hchars, by simp⟩
    cases hcs : name.toList with
    | nil =>
        rw [hcs] at hhead
        cases hhead
    | cons c rest =>
        rw [hcs] at hhead
        exact ⟨c, rest, rfl, hhead⟩

theorem reference_toList (name : String) :
    (reference name).toList = Hole.spelling ⟨[], name.toList, []⟩ := by
  simp [reference, Hole.spelling, String.toList_append]

/-- A reference to a name is a hole and nothing else. -/
theorem segments_reference {name : String} (h : isName name = true) :
    segments (reference name).toList = [.hole ⟨[], name.toList, []⟩] := by
  refine (cuts_iff.mp ?_).symm
  have hcuts := Cuts.nil.hole (proper_iff_isName.mpr h)
  rwa [List.append_nil, ← reference_toList] at hcuts

/-- What stands between braces is the one placeholder exactly if it is a name. -/
theorem placeholders_reference_iff {name : String} :
    placeholders (reference name) = [name] ↔ isName name = true := by
  constructor
  · intro h
    have hmem : name ∈ names (reference name) := by
      rw [← (firsts_placeholders (reference name)).mem, h]
      exact List.mem_singleton_self name
    obtain ⟨hole, hhole, rfl⟩ := mem_names.mp hmem
    have hproper := proper_of_mem_segmentsFrom hhole
    refine proper_iff_isName.mp ⟨by simp, ?_, ?_, by simp⟩
    · simpa [Hole.key] using hproper.start
    · simpa [Hole.key] using hproper.name
  · intro h
    rw [placeholders, names, segments_reference h]
    simp [Segment.hole?, Hole.key, List.eraseDups_cons]

theorem reference_eq (name : String) :
    reference name = String.ofList (Hole.spelling ⟨[], name.toList, []⟩) := by
  rw [← reference_toList, String.ofList_toList]

theorem key_reference (name : String) : Hole.key ⟨[], name.toList, []⟩ = name :=
  String.ofList_toList

/-- The slot for the hole of a name, when the hole stands behind a text. -/
def slotBehind (text name : String) : Slot :=
  let start := Text.byteSize text.toList
  { part := 0, start, stop := start + Text.byteSize (reference name).toList, name }

/-- The hole of a name without a value gets a slot where it stands in a
template, and what stands around it is rendered on its own. -/
def MarksReference (name : String) : Prop :=
  ∀ (before after : String) (lookup : String → Option String), lookup name = none →
    let slot := slotBehind (render before lookup) name
    renderWithSlots (before ++ reference name ++ after) lookup =
      (render before lookup ++ reference name ++ render after lookup,
        slots before lookup ++ slot :: (slots after lookup).map (moved slot.stop))

theorem marksReference_of_isName {name : String} (h : isName name = true) :
    MarksReference name := by
  intro before after lookup hnone
  have hproper := proper_iff_isName.mpr h
  have hkey : lookup (Hole.key ⟨[], name.toList, []⟩) = none := by rwa [key_reference]
  have hfill : (Segment.hole ⟨[], name.toList, []⟩).fill lookup
      = Hole.spelling ⟨[], name.toList, []⟩ := by simp only [Segment.fill, hkey]
  rw [renderWithSlots_eq, slotBehind, reference_eq, render_append_hole hproper, hfill,
    slots_append_hole hproper before after hkey, key_reference, String.toList_ofList]

theorem MarksReference.mem_slots {name : String} (h : MarksReference name) (before after : String)
    {lookup : String → Option String} (hnone : lookup name = none) :
    slotBehind (render before lookup) name ∈ slots (before ++ reference name ++ after) lookup := by
  have hslots := congrArg Prod.snd (h before after lookup hnone)
  rw [renderWithSlots_eq] at hslots
  dsimp only at hslots
  rw [hslots]
  exact List.mem_append_right _ (List.mem_cons_self ..)

end Template

namespace Compile

open Template (isName isNameChar isNameStart reference render)

/-! ## Names of steps -/

/-- A text that may stand inside a name. -/
def isSpelled (text : String) : Bool := text.toList.all isNameChar

theorem isNameChar_of_digit {c : Char} (h : c.isDigit = true) : isNameChar c = true := by
  simp [isNameChar, Char.isAlphanum, h]

/-- The name of a child is one if that of its node is, and its label may
stand in it. -/
theorem isName_childName (path : String) (index : Nat) (n : Node) :
    isName (childName path index n) = (isName path && isSpelled (label n)) := by
  have hdigits : (Nat.toDigits 10 index).all isNameChar = true :=
    List.all_eq_true.mpr fun c hc => isNameChar_of_digit (Decimal.isDigit_of_natural hc)
  have hslash : isNameChar '/' = true := by decide
  have hcolon : isNameChar ':' = true := by decide
  rw [isName, isName, isSpelled, childName_toList]
  cases path.toList with
  | nil =>
      -- a name does not start with a slash
      have hstart : isNameStart '/' = false := by decide
      simp [hstart]
  | cons c cs => simp [hdigits, hslash, hcolon, Bool.and_assoc]

/-- A step with others below it is labelled by its kind. -/
theorem isSpelled_label {s : Step} (h : s.isCall = false) : isSpelled s.label = true := by
  cases s using Step.casesOn with
  | call c => cases h
  | sequence name steps => exact (by decide : isSpelled "sequence" = true)
  | parallel name steps => exact (by decide : isSpelled "parallel" = true)

/-- The steps below a step. -/
def below (s : Step) : List Step := s.children.flatMap Step.walk

theorem walk_eq_cons_below (s : Step) : s.walk = s :: below s := by
  cases s using Step.casesOn with
  | call c => rfl
  | sequence name steps => rw [Step.walk, Step.walkAll_eq_flatMap]; rfl
  | parallel name steps => rw [Step.walk, Step.walkAll_eq_flatMap]; rfl

/-- What a step below a node has in its name: the name of the node, and at its
end a label. -/
structure NamesBelow (name : String) (n : Node) (t : Step) : Prop where
  named : t.name = name
  labelled : t.label = label n
  names : ∀ u ∈ below t, isName u.name = (isName name && isSpelled u.label)

theorem namesBelow_node {name : String} {n : Node} {root : Step} {nodes : List Node}
    {ts : List Step} (hname : root.name = name) (hlabel : root.label = label n)
    (hchildren : root.children = ts) (hlen : ts.length = nodes.length)
    (hall : ∀ (i : Nat) (m : Node) (t : Step), nodes[i]? = some m → ts[i]? = some t →
      NamesBelow (childName name i m) m t) : NamesBelow name n root := by
  refine ⟨hname, hlabel, fun u hu => ?_⟩
  rw [below, hchildren] at hu
  obtain ⟨t, ht, hut⟩ := List.mem_flatMap.mp hu
  obtain ⟨i, hi, rfl⟩ := List.getElem_of_mem ht
  have hchild := hall i _ _ (List.getElem?_eq_getElem (hlen ▸ hi)) (List.getElem?_eq_getElem hi)
  rw [walk_eq_cons_below] at hut
  rcases List.mem_cons.mp hut with rfl | hut
  · rw [hchild.named, isName_childName, ← hchild.labelled]
  · -- there are steps below the child, so it is labelled by its kind
    have hspelled : isSpelled ts[i].label = true := by
      refine isSpelled_label (Bool.eq_false_iff.mpr fun hcall => ?_)
      cases hstep : ts[i] using Step.casesOn with
      | call c =>
          rw [hstep] at hut
          cases hut
      | sequence | parallel =>
          rw [hstep] at hcall
          cases hcall
    rw [hchild.names u hut, isName_childName, ← hchild.labelled, hspelled, Bool.and_true]

theorem step_namesBelow {s : Scope} {name : String} {n : Node} {t : Step}
    (h : step s name n = .ok t) : NamesBelow name n t := by
  refine step_ind (motive := NamesBelow) ?_ ?_ ?_ h
  · exact fun name agent input _ => ⟨rfl, rfl, by simp [below, Step.children]⟩
  · exact fun name nodes ts _ hlen hall => namesBelow_node rfl rfl rfl hlen hall
  · exact fun name nodes ts _ hlen hall => namesBelow_node rfl rfl rfl hlen hall

/-- A step has a name exactly if the flow has one and an agent that it calls
below the root may be spelled in one. -/
theorem isName_iff {s : Scope} {name : String} {n : Node} {root t : Step}
    (h : step s name n = .ok root) (ht : t ∈ root.walk) :
    isName t.name = true ↔
      isName name = true ∧ ∀ c, t = .call c → t.name = name ∨ isSpelled c.agent = true := by
  obtain ⟨hname, -, hbelow⟩ := step_namesBelow h
  rw [walk_eq_cons_below] at ht
  rcases List.mem_cons.mp ht with rfl | ht
  · rw [hname]
    exact ⟨fun hlegal => ⟨hlegal, fun _ _ => .inl rfl⟩, And.left⟩
  · have hiff := hbelow t ht
    constructor
    · intro hlegal
      rw [hlegal, eq_comm, Bool.and_eq_true] at hiff
      refine ⟨hiff.1, ?_⟩
      rintro c rfl
      exact .inr hiff.2
    · rintro ⟨hlegal, hcall⟩
      cases t using Step.casesOn with
      | call c =>
          rcases hcall c rfl with heq | hspelled
          · rwa [heq]
          · rw [hiff, hlegal]
            exact hspelled
      | sequence | parallel => rw [hiff, hlegal, isSpelled_label rfl, Bool.true_and]

/-! ## Calls that refer to a step -/

/-- A call whose template has the hole of a name, between two other texts:
there is a slot for it, and a value that binding finds under the name stands
in the place of the hole. -/
structure Refers (s : Scope) (before name after : String) (c : Call) : Prop where
  slot : Template.slotBehind (render before s.value?) name ∈ c.slots
  bound : ∀ lookup value, lookup name = some value →
    let filled (text : String) : String := render text (Template.orElse s.value? lookup)
    c.bind? lookup = some
      { c.message with
        content := .text (filled before ++ value ++ filled after)
          :: s.injected (before ++ reference name ++ after) }

theorem compiledCall_refers (s : Scope) (step agent before after : String) {name : String}
    (hname : isName name = true) (hnone : s.value? name = none) :
    Refers s before name after
      (compiledCall s step agent (some (before ++ reference name ++ after))) := by
  have hmem := (Template.marksReference_of_isName hname).mem_slots before after hnone
  constructor
  · rw [compiledCall_slots]
    exact hmem
  · intro lookup value hvalue
    have hkey : Template.orElse s.value? lookup name = some value := by
      rw [Template.orElse, hnone, Option.none_or, hvalue]
    have hfill : (Template.Segment.hole ⟨[], name.toList, []⟩).fill
        (Template.orElse s.value? lookup) = value.toList := by
      simp only [Template.Segment.fill, Template.key_reference, hkey]
    have hrender : render (before ++ reference name ++ after) (Template.orElse s.value? lookup)
        = render before (Template.orElse s.value? lookup) ++ value
          ++ render after (Template.orElse s.value? lookup) := by
      rw [Template.reference_eq,
        Template.render_append_hole (Template.proper_iff_isName.mpr hname), hfill,
        String.ofList_toList]
    obtain ⟨-, -, hsends⟩ :=
      compiledCall_sends s step agent (some (before ++ reference name ++ after))
    have hbinds := hsends lookup
    dsimp only [Option.getD_some] at hbinds
    rw [if_neg (Bool.eq_false_iff.mp (Template.not_blank_of_mem_slots hmem)), hrender] at hbinds
    exact hbinds.1

/-- If there are no other holes, the texts around the hole stay as they are. -/
theorem Refers.bound_alone {s : Scope} {before name after : String} {c : Call}
    (h : Refers s before name after c) (hbefore : Template.names before = [])
    (hafter : Template.names after = []) {lookup : String → Option String} {value : String}
    (hvalue : lookup name = some value) :
    c.bind? lookup = some
      { c.message with
        content := .text (before ++ value ++ after)
          :: s.injected (before ++ reference name ++ after) } := by
  have hbound := h.bound lookup value hvalue
  dsimp only at hbound
  rwa [Template.render_of_names_eq_nil hbefore, Template.render_of_names_eq_nil hafter] at hbound

/-! ## Which steps can be referred to -/

/-- A flow whose name is a title. -/
def titled : MasterAgent :=
  { sequenceOf ["draft", "review"] [] with
    flows := [{ name := "Write article", code := some "write_article"
                flow := .sequence [.agentCall "draft" none,
                  .agentCall "review" (some "See \x7b\x7bWrite article/0:draft\x7d\x7d")] }] }

/-- There are valid definitions with steps that no template can refer to. -/
theorem free_names_unreferenceable :
    ¬∀ (master : MasterAgent) (key : Option String) (inputs : ResolvedInputs) (injectsAll : Bool)
      (plan : Plan), master.validate = .ok () → compile master key inputs injectsAll = .ok plan →
      ∀ s ∈ plan.root.walk, Template.placeholders (reference s.name) = [s.name] := by
  intro h
  have hcompiles : (compile titled none .empty true).toOption.any (fun plan =>
      plan.root.walk.any fun s => s.name == "Write article/0:draft") = true := by decide +kernel
  obtain ⟨plan, hplan, hany⟩ := (Option.any_eq_true ..).mp hcompiles
  obtain ⟨s, hs, hname⟩ := List.any_eq_true.mp hany
  have hlegal := h titled none .empty true plan rfl (eq_ok_of_toOption hplan) s hs
  rw [eq_of_beq hname] at hlegal
  exact absurd (Template.placeholders_reference_iff.mp hlegal) (by decide +kernel)

/-- **Which steps can be referred to.** A hole with the name of a step has
that name as its placeholder exactly if the name of the flow fits the grammar
of names and, unless the step is the root, an agent that it calls is spelled
with characters of that grammar. Then the hole gets a slot wherever it stands
in a template, unless its name has a value when the flow is compiled, and a
call with such a template is bound with what it finds under the name: if it
sees the step, and no agent that is called like it, the output of the step. -/
theorem steps_referenceable {master : MasterAgent} {key : Option String} {inputs : ResolvedInputs}
    {injectsAll : Bool} {plan : Plan} (h : compile master key inputs injectsAll = .ok plan) :
    ∃ f, master.flow key = .ok f ∧ ∀ s ∈ plan.root.walk,
      (Template.placeholders (reference s.name) = [s.name] ↔
        isName f.name = true ∧ ∀ c, s = .call c → s.name = f.name ∨ isSpelled c.agent = true) ∧
      (Template.placeholders (reference s.name) = [s.name] →
        Template.MarksReference s.name ∧
        List.Forall₂ (fun leaf c => ∀ before after, leaf.2 = before ++ reference s.name ++ after →
            (scopeOf master inputs injectsAll).value? s.name = none →
            Refers (scopeOf master inputs injectsAll) before s.name after c)
          f.flow.leaves plan.root.calls) ∧
      ∀ path, s ∈ plan.root.before path →
        (∀ c, .call c ∈ plan.root.before path → c.agent = s.name → .call c = s) →
        ∀ reply lookup, plan.root.Tells path (fun _ => none) reply lookup →
          ∃ text, Json.Shows (s.value reply) text ∧ lookup s.name = some text := by
  obtain ⟨f, hflow, hroot, -⟩ := compile_eq_ok h
  refine ⟨f, hflow, fun s hs => ?_⟩
  rw [Template.placeholders_reference_iff]
  refine ⟨isName_iff hroot hs, fun hlegal => ⟨Template.marksReference_of_isName hlegal, ?_⟩, ?_⟩
  · refine step_leaves (fun name agent input before after htemplate hnone => ?_) hroot
    have hrefers := compiledCall_refers _ name agent before after hlegal hnone
    rw [← htemplate] at hrefers
    exact hrefers
  · intro path hbefore honly reply lookup htells
    have hinjective := List.inj_on_of_nodup_map (compiled_names_nodup h)
    have hfound : Step.lastKnownAs s.name (plan.root.before path) = some s := by
      refine Step.lastKnownAs_eq_some hbefore ?_ fun t ht hknown => ?_
      · cases s using Step.casesOn <;> simp [Step.isKnownAs, Step.name]
      · have heq : t.name = s.name → t = s :=
          hinjective (Step.before_subset_walk path plan.root ht) hs
        cases t using Step.casesOn with
        | call c =>
            rcases (Bool.or_eq_true ..).mp hknown with hname | hagent
            · exact heq (eq_of_beq hname)
            · exact honly c ht (eq_of_beq hagent)
        | sequence name steps | parallel name steps => exact heq (eq_of_beq hknown)
    have hrel := htells s.name
    rw [hfound] at hrel
    generalize lookup s.name = told at hrel
    cases hrel with
    | some hshows => exact ⟨_, hshows, rfl⟩

/-- An agent with a title of two words, which is asked about a draft. -/
def checked : MasterAgent :=
  sequenceOf ["draft", "fact checker"]
    [.agentCall "draft" none,
      .agentCall "fact checker" (some "Is it true? \x7b\x7bmain/0:draft\x7d\x7d!")]

/-- The calls of a sequence of two. -/
def bothCalls? : Step → Option (Call × Call)
  | .sequence _ [.call first, .call second] => some (first, second)
  | _ => none

theorem exists_of_bothCalls? {s : Step} {calls : Call × Call} (h : bothCalls? s = some calls) :
    ∃ name, s = .sequence name [.call calls.1, .call calls.2] := by
  unfold bothCalls? at h
  split at h
  · cases h
    exact ⟨_, rfl⟩
  · cases h

/-- The draft can be referred to, what the checker says of it cannot. The
checker is told the draft. -/
theorem steps_referenceable_checked :
    ∃ plan c, compile checked none .empty true = .ok plan ∧
      Template.placeholders (reference "main/0:draft") = ["main/0:draft"] ∧
      Template.placeholders (reference "main/1:fact checker") ≠ ["main/1:fact checker"] ∧
      plan.root.at? [1] = some (.call c) ∧
      ∀ reply lookup, plan.root.Tells [1] (fun _ => none) reply lookup →
        c.bind? lookup = some
          { c.message with content := [.text ("Is it true? " ++ reply "main/0:draft" ++ "!")] } := by
  have hcompiles : (compile checked none .empty true).toOption.any (fun plan =>
      (bothCalls? plan.root).any fun calls =>
        calls.1.name == "main/0:draft" && calls.1.agent == "draft"
          && calls.2.name == "main/1:fact checker" && calls.2.agent == "fact checker") = true := by
    decide +kernel
  obtain ⟨plan, hplan, hany⟩ := (Option.any_eq_true ..).mp hcompiles
  obtain ⟨⟨draft, c⟩, hcalls, hnames⟩ := (Option.any_eq_true ..).mp hany
  obtain ⟨name, hroot⟩ := exists_of_bothCalls? hcalls
  simp only [Bool.and_eq_true, beq_iff_eq] at hnames
  obtain ⟨⟨⟨hdraft, hwriter⟩, hcheck⟩, hchecker⟩ := hnames
  have hplan := eq_ok_of_toOption hplan
  obtain ⟨f, hflow, hsteps⟩ := steps_referenceable hplan
  obtain rfl : checked.flows[0] = f := Except.ok.inj hflow
  have hwalk : plan.root.walk = [plan.root, .call draft, .call c] := by rw [hroot]; rfl
  have hbefore : plan.root.before [1] = [.call draft] := by rw [hroot]; rfl
  have hcalls : plan.root.calls = [draft, c] := by rw [hroot]; rfl
  obtain ⟨hlegal, hrefers, htold⟩ := hsteps (.call draft) (by simp [hwalk])
  obtain ⟨hillegal, -, -⟩ := hsteps (.call c) (by simp [hwalk])
  rw [Step.name, hdraft] at hlegal hrefers htold
  rw [Step.name, hcheck] at hillegal
  have hplaceholder := hlegal.mpr ⟨by decide +kernel, fun d hd => .inr ?_⟩
  · refine ⟨plan, c, hplan, hplaceholder, fun hother => ?_, by rw [hroot]; rfl, ?_⟩
    · rcases (hillegal.mp hother).2 c rfl with hname | hspelled
      · exact absurd hname (by decide +kernel)
      · rw [hchecker] at hspelled
        exact absurd hspelled (by decide +kernel)
    · intro reply lookup htells
      obtain ⟨text, hshows, hlookup⟩ := htold [1] (by simp [hbefore]) (by simp [hbefore]) reply
        lookup htells
      obtain ⟨-, hbinds⟩ := hrefers hplaceholder
      rw [hcalls] at hbinds
      obtain ⟨-, hbinds⟩ := List.forall₂_cons.mp hbinds
      obtain ⟨hbinds, -⟩ := List.forall₂_cons.mp hbinds
      have hbound := (hbinds "Is it true? " "!" (by decide +kernel) rfl).bound_alone
        (by decide +kernel) (by decide +kernel) hlookup
      have halone : Template.placeholders
          ("Is it true? " ++ reference "main/0:draft" ++ "!") = ["main/0:draft"] := by
        decide +kernel
      rw [Scope.injected, halone] at hbound
      cases hshows with
      | verbatim =>
          rw [hdraft] at hbound
          exact hbound
      | compact hother => exact absurd rfl (hother _)
  · obtain rfl := Step.call.inj hd
    rw [hwriter]
    decide +kernel

end Compile

end Ensemble
