import Ensemble.Proofs.Template.Holes

/-!
# Holes wherever they stand

A hole may be spelled anywhere in a text, and a scanner that goes on behind
each hole it has found could miss one that starts inside another. It does
not: there is no brace between the outer ones of a hole, so two holes never
overlap (`occurs_disjoint`). So there is one way to cut a text at all its
holes, `Cuts`, and the scanner finds it (`cuts_iff`). What is rendered is
read off the pieces, in one pass or in two (`holes_exact`).
-/

namespace Ensemble.Template

open Text

/-- A hole stands in a text behind `before`. -/
def Hole.Occurs (h : Hole) (text before : List Char) : Prop :=
  h.Proper ∧ ∃ after, text = before ++ (h.spelling ++ after)

variable {h h' : Hole} {text before before' after after' : List Char}

/-! ## No overlap -/

/-- What stands behind the opening braces of a hole. -/
def Hole.inner (h : Hole) : List Char := h.left ++ (h.name ++ (h.right ++ ['}', '}']))

theorem Hole.spelling_eq (h : Hole) : h.spelling = '{' :: '{' :: h.inner := rfl

theorem Hole.Proper.brace_not_mem (hproper : h.Proper) : '{' ∉ h.inner := by
  have hblank : ∀ cs : List Char, (∀ c ∈ cs, isBlank c = true) → '{' ∉ cs :=
    fun cs hcs hmem => absurd (hcs _ hmem) (by decide)
  have hname : '{' ∉ h.name := fun hmem => absurd (hproper.name _ hmem) (by decide)
  simp only [Hole.inner, List.mem_append, not_or]
  exact ⟨hblank _ hproper.left, hname, hblank _ hproper.right, by decide⟩

/-- A hole that stands behind the start of another one stands behind its end. -/
theorem spelling_le_of_append (hproper : h.Proper) (hbefore : before ≠ [])
    (htext : h.spelling ++ after = before ++ (h'.spelling ++ after')) :
    h.spelling.length ≤ before.length := by
  by_contra hshort
  obtain ⟨tail, hspelling⟩ : before <+: h.spelling :=
    List.prefix_of_prefix_length_le ⟨_, htext.symm⟩ (List.prefix_append ..) (by omega)
  have htail : tail ++ after = '{' :: '{' :: (h'.inner ++ after') := by
    rw [← hspelling, List.append_assoc] at htext
    exact List.append_cancel_left htext
  have hne : tail ≠ [] := by
    rintro rfl
    rw [List.append_nil] at hspelling
    exact hshort (hspelling ▸ Nat.le_refl _)
  obtain ⟨c, rest, rfl⟩ := List.exists_cons_of_ne_nil hne
  obtain ⟨rfl, hrest⟩ := List.cons.inj htail
  -- the other hole opens within the spelling of this one, and there is no such brace
  refine hproper.brace_not_mem ?_
  rw [Hole.spelling_eq] at hspelling
  match before, hbefore with
  | [b], _ =>
      obtain ⟨-, hspelling⟩ := List.cons.inj hspelling
      obtain ⟨-, rfl⟩ := List.cons.inj hspelling
      obtain ⟨d, inner, hinner⟩ := List.exists_cons_of_ne_nil (l := h.inner) (by simp [Hole.inner])
      rw [hinner] at hrest ⊢
      obtain ⟨rfl, -⟩ := List.cons.inj hrest
      exact List.mem_cons_self ..
  | b :: b' :: before, _ =>
      obtain ⟨-, hspelling⟩ := List.cons.inj hspelling
      obtain ⟨-, hspelling⟩ := List.cons.inj hspelling
      rw [← hspelling]
      exact List.mem_append_right _ (List.mem_cons_self ..)

theorem Hole.spelling_ne_nil (h : Hole) : h.spelling ≠ [] := List.cons_ne_nil _ _

/-- Two holes at one place are the same. -/
theorem Hole.Proper.eq_of_append (hproper : h.Proper) (hproper' : h'.Proper)
    (htext : h.spelling ++ after = h'.spelling ++ after') : h = h' := by
  have hread := hole?_spelling hproper after
  rw [htext, hole?_spelling hproper' after'] at hread
  exact (Option.some.inj hread).symm

/-- A hole stands where another one does, or behind its end. -/
theorem occurs_spelling_append_iff (hproper : h.Proper) :
    h'.Occurs (h.spelling ++ text) before ↔
      before = [] ∧ h' = h ∨ ∃ before', before = h.spelling ++ before' ∧ h'.Occurs text before' := by
  constructor
  · rintro ⟨hproper', after, htext⟩
    by_cases hbefore : before = []
    · subst hbefore
      exact .inl ⟨rfl, (hproper.eq_of_append hproper' htext).symm⟩
    · have hle := spelling_le_of_append hproper hbefore htext
      obtain ⟨before', rfl⟩ : h.spelling <+: before :=
        List.prefix_of_prefix_length_le (List.prefix_append ..) ⟨_, htext.symm⟩ hle
      rw [List.append_assoc] at htext
      exact .inr ⟨before', rfl, hproper', after, List.append_cancel_left htext⟩
  · rintro (⟨rfl, rfl⟩ | ⟨before', rfl, hproper', after, rfl⟩)
    · exact ⟨hproper, text, rfl⟩
    · exact ⟨hproper', after, (List.append_assoc ..).symm⟩

/-- A character that no hole starts with is before all holes. -/
theorem occurs_cons_iff {c : Char} (hnone : hole? (c :: text) = none) :
    h.Occurs (c :: text) before ↔ ∃ before', before = c :: before' ∧ h.Occurs text before' := by
  constructor
  · rintro ⟨hproper, after, htext⟩
    cases before with
    | nil =>
        rw [htext, List.nil_append, hole?_spelling hproper] at hnone
        cases hnone
    | cons b before =>
        obtain ⟨rfl, hrest⟩ := List.cons.inj htext
        exact ⟨before, rfl, hproper, after, hrest⟩
  · rintro ⟨before', rfl, hproper, after, rfl⟩
    exact ⟨hproper, after, rfl⟩

theorem disjoint_of_le (h₁ : h.Occurs text before) (h₂ : h'.Occurs text before')
    (hle : before.length ≤ before'.length) :
    before = before' ∧ h = h' ∨ before.length + h.spelling.length ≤ before'.length := by
  obtain ⟨hproper, after, rfl⟩ := h₁
  obtain ⟨hproper', after', htext⟩ := h₂
  obtain ⟨between, rfl⟩ : before <+: before' :=
    List.prefix_of_prefix_length_le (List.prefix_append ..) ⟨_, htext.symm⟩ hle
  rw [List.append_assoc] at htext
  have hlater : h'.Occurs (h.spelling ++ after) between :=
    ⟨hproper', after', List.append_cancel_left htext⟩
  rcases (occurs_spelling_append_iff hproper).mp hlater with ⟨rfl, rfl⟩ | ⟨rest, rfl, -⟩
  · exact .inl ⟨(List.append_nil _).symm, rfl⟩
  · simp only [List.length_append]
    omega

/-- Of two holes in a text one stands behind the other, or they are the same. -/
theorem occurs_disjoint (h₁ : h.Occurs text before) (h₂ : h'.Occurs text before') :
    before = before' ∧ h = h' ∨ before.length + h.spelling.length ≤ before'.length ∨
      before'.length + h'.spelling.length ≤ before.length := by
  rcases Nat.le_total before.length before'.length with hle | hle
  · exact (disjoint_of_le h₁ h₂ hle).imp_right .inl
  · rcases disjoint_of_le h₂ h₁ hle with ⟨rfl, rfl⟩ | hbehind
    · exact .inl ⟨rfl, rfl⟩
    · exact .inr (.inr hbehind)

/-! ## Cuts -/

/-- A piece as it stands in the template. -/
def Segment.spelling (s : Segment) : List Char := s.fill fun _ => none

/-- A text that is cut at all its holes, and only there. -/
structure Cuts (text : List Char) (pieces : List Segment) : Prop where
  spelled : pieces.flatMap Segment.spelling = text
  holes : ∀ (h : Hole) (before : List Char), h.Occurs text before ↔
    ∃ earlier later, pieces = earlier ++ .hole h :: later ∧
      earlier.flatMap Segment.spelling = before

variable {pieces pieces' : List Segment} {s s' : Segment}

theorem Segment.spelling_ne_nil (s : Segment) : s.spelling ≠ [] := by
  cases s with
  | char c => exact List.cons_ne_nil c []
  | hole h => exact h.spelling_ne_nil

theorem eq_nil_of_spelled (h : pieces.flatMap Segment.spelling = []) : pieces = [] := by
  cases pieces with
  | nil => rfl
  | cons s rest =>
      rw [List.flatMap_cons, List.append_eq_nil_iff] at h
      exact absurd h.1 s.spelling_ne_nil

/-- The holes among some pieces are the first one, if it is a hole, and those behind it. -/
theorem exists_cons_iff :
    (∃ earlier later, s :: pieces = earlier ++ .hole h :: later ∧
        earlier.flatMap Segment.spelling = before) ↔
      before = [] ∧ s = .hole h ∨ ∃ before', before = s.spelling ++ before' ∧
        ∃ earlier later, pieces = earlier ++ .hole h :: later ∧
          earlier.flatMap Segment.spelling = before' := by
  constructor
  · rintro ⟨earlier, later, hpieces, rfl⟩
    cases earlier with
    | nil => exact .inl ⟨rfl, (List.cons.inj hpieces).1⟩
    | cons s' earlier =>
        obtain ⟨rfl, rfl⟩ := List.cons.inj hpieces
        exact .inr ⟨_, List.flatMap_cons, earlier, later, rfl, rfl⟩
  · rintro (⟨rfl, rfl⟩ | ⟨before', rfl, earlier, later, rfl, rfl⟩)
    · exact ⟨[], pieces, rfl, rfl⟩
    · exact ⟨s :: earlier, later, rfl, List.flatMap_cons⟩

theorem Cuts.nil : Cuts [] [] := by
  refine ⟨rfl, fun h before => iff_of_false ?_ ?_⟩
  · rintro ⟨-, after, htext⟩
    have hempty := List.append_eq_nil_iff.mp (List.append_eq_nil_iff.mp htext.symm).2
    exact h.spelling_ne_nil hempty.1
  · rintro ⟨earlier, later, hpieces, -⟩
    cases earlier <;> cases hpieces

theorem Cuts.hole (hcuts : Cuts text pieces) (hproper : h.Proper) :
    Cuts (h.spelling ++ text) (.hole h :: pieces) := by
  refine ⟨congrArg (h.spelling ++ ·) hcuts.spelled, fun h' before => ?_⟩
  rw [occurs_spelling_append_iff hproper, exists_cons_iff]
  simp only [hcuts.holes, Segment.hole.injEq, eq_comm (a := h')]
  rfl

theorem Cuts.char (hcuts : Cuts text pieces) {c : Char} (hnone : hole? (c :: text) = none) :
    Cuts (c :: text) (.char c :: pieces) := by
  refine ⟨congrArg (c :: ·) hcuts.spelled, fun h' before => ?_⟩
  rw [occurs_cons_iff hnone, exists_cons_iff]
  simp only [hcuts.holes, reduceCtorEq, and_false, false_or]
  rfl

/-- The scanner cuts a text at all its holes. -/
theorem cuts_segmentsFrom (skip : Nat) (cs : List Char) :
    Cuts (cs.drop skip) (segmentsFrom skip cs) := by
  induction cs generalizing skip with
  | nil =>
      rw [List.drop_nil]
      cases skip <;> exact .nil
  | cons c cs ih =>
      cases skip with
      | succ skip => exact ih skip
      | zero =>
          rw [segmentsFrom, List.drop_zero]
          split
          · rename_i h hread
            obtain ⟨hproper, rest, hcs⟩ := hole?_eq_some_iff.mp hread
            have hdrop : cs.drop (h.spelling.length - 1) = rest := by
              obtain ⟨-, rfl⟩ := List.cons.inj hcs
              exact List.drop_left' rfl
            have hrest := ih (h.spelling.length - 1)
            rw [hdrop] at hrest
            rw [hcs]
            exact hrest.hole hproper
          · rename_i hnone
            have hrest := ih 0
            rw [List.drop_zero] at hrest
            exact hrest.char hnone

theorem Cuts.tail (hcuts : Cuts (s.spelling ++ text) (s :: pieces)) : Cuts text pieces := by
  refine ⟨List.append_cancel_left hcuts.spelled, fun h before => ?_⟩
  have hbehind : h.Occurs text before ↔ h.Occurs (s.spelling ++ text) (s.spelling ++ before) := by
    simp only [Hole.Occurs, List.append_assoc, List.append_cancel_left_eq]
  rw [hbehind, hcuts.holes, exists_cons_iff]
  constructor
  · rintro (⟨hnil, -⟩ | ⟨before', hbefore, hlater⟩)
    · exact absurd (List.append_eq_nil_iff.mp hnil).1 s.spelling_ne_nil
    · rwa [List.append_cancel_left hbefore]
  · intro hlater
    exact .inr ⟨before, rfl, hlater⟩

/-- The first piece is a hole exactly if the text starts with it. -/
theorem Cuts.head_eq_hole_iff (hcuts : Cuts text (s :: pieces)) :
    s = .hole h ↔ h.Occurs text [] := by
  rw [hcuts.holes, exists_cons_iff]
  simp [s.spelling_ne_nil]

/-- A text can be cut at all its holes in one way only. -/
theorem Cuts.eq (hcuts : Cuts text pieces) (hcuts' : Cuts text pieces') : pieces = pieces' := by
  induction pieces generalizing text pieces' with
  | nil =>
      obtain rfl := hcuts.spelled
      exact (eq_nil_of_spelled hcuts'.spelled).symm
  | cons s rest ih =>
      cases pieces' with
      | nil =>
          obtain rfl := hcuts'.spelled
          exact eq_nil_of_spelled hcuts.spelled
      | cons s' rest' =>
          have htext := hcuts.spelled.trans hcuts'.spelled.symm
          rw [List.flatMap_cons, List.flatMap_cons] at htext
          have hhead : s = s' := by
            cases s with
            | hole h => exact (hcuts'.head_eq_hole_iff.mpr (hcuts.head_eq_hole_iff.mp rfl)).symm
            | char c =>
                cases s' with
                | hole h => exact hcuts.head_eq_hole_iff.mpr (hcuts'.head_eq_hole_iff.mp rfl)
                | char c' => exact congrArg Segment.char (List.cons.inj htext).1
          subst hhead
          have hbehind := hcuts'.spelled
          rw [List.flatMap_cons] at hbehind
          subst hbehind
          rw [ih hcuts.tail hcuts'.tail]

/-- The scanner finds the one way to cut a text at all its holes. -/
theorem cuts_iff {template : String} :
    Cuts template.toList pieces ↔ pieces = segments template.toList := by
  have hscan : Cuts template.toList (segments template.toList) :=
    cuts_segmentsFrom 0 template.toList
  exact ⟨fun h => h.eq hscan, fun h => h ▸ hscan⟩

/-! ## Around a hole -/

variable {lookup : String → Option String}

theorem segmentsFrom_append (taken cs : List Char) :
    segmentsFrom taken.length (taken ++ cs) = segmentsFrom 0 cs := by
  induction taken with
  | nil => rfl
  | cons c taken ih => exact ih

/-- A text is scanned up to a hole as if nothing came behind it, and the
scanner starts afresh behind the hole. -/
theorem segmentsFrom_append_hole (hproper : h.Proper) (before after : List Char) {skip : Nat}
    (hskip : skip ≤ before.length) :
    segmentsFrom skip (before ++ (h.spelling ++ after))
      = segmentsFrom skip before ++ .hole h :: segments after := by
  induction before generalizing skip with
  | nil =>
      obtain rfl : skip = 0 := Nat.le_zero.mp hskip
      have hread := hole?_spelling hproper after
      have hbehind := segmentsFrom_append ('{' :: h.inner) after
      rw [Hole.spelling_eq] at hread ⊢
      simp only [List.nil_append, List.cons_append, segmentsFrom] at hread hbehind ⊢
      rw [hread]
      exact congrArg (List.cons _) hbehind
  | cons c before ih =>
      cases skip with
      | succ skip => exact ih (Nat.le_of_succ_le_succ hskip)
      | zero =>
          rw [List.cons_append, segmentsFrom, segmentsFrom]
          cases hread : hole? (c :: before) with
          | some h' =>
              obtain ⟨hproper', rest, hbefore⟩ := hole?_eq_some_iff.mp hread
              have hlater : hole? (c :: (before ++ (h.spelling ++ after))) = some h' := by
                rw [← List.cons_append, hbefore, List.append_assoc]
                exact hole?_spelling hproper' _
              have hlength := congrArg List.length hbefore
              rw [List.length_cons, List.length_append] at hlength
              rw [hlater]
              exact congrArg (List.cons _) (ih (by omega))
          | none =>
              -- a hole that starts here ends before the other one, so it would have been read
              have hnone : hole? (c :: (before ++ (h.spelling ++ after))) = none := by
                refine Option.eq_none_iff_forall_ne_some.mpr fun h' hread' => ?_
                obtain ⟨hproper', rest, htext⟩ := hole?_eq_some_iff.mp hread'
                rw [← List.cons_append] at htext
                have hle := spelling_le_of_append hproper' (List.cons_ne_nil c before) htext.symm
                obtain ⟨rest', hbefore⟩ : h'.spelling <+: c :: before :=
                  List.prefix_of_prefix_length_le ⟨_, htext.symm⟩ (List.prefix_append ..) hle
                rw [← hbefore, hole?_spelling hproper'] at hread
                cases hread
              rw [hnone]
              exact congrArg (List.cons _) (ih (Nat.zero_le _))

theorem slotsFrom_append (start : Nat) (pieces pieces' : List Segment) :
    slotsFrom lookup start (pieces ++ pieces') = slotsFrom lookup start pieces
      ++ slotsFrom lookup (start + byteSize (pieces.flatMap (Segment.fill lookup))) pieces' := by
  induction pieces generalizing start with
  | nil => rfl
  | cons s rest ih =>
      rw [List.flatMap_cons, byteSize_append, ← Nat.add_assoc, List.cons_append]
      cases s with
      | char c => exact ih _
      | hole h =>
          cases hvalue : lookup h.key with
          | some value =>
              simp only [slotsFrom, hvalue]
              exact ih _
          | none =>
              simp only [slotsFrom, hvalue, List.cons_append]
              exact congrArg (List.cons _) (ih _)

/-- A slot with some bytes more before it. -/
def moved (n : Nat) (slot : Slot) : Slot :=
  { slot with start := n + slot.start, stop := n + slot.stop }

theorem slotsFrom_add (n start : Nat) (pieces : List Segment) :
    slotsFrom lookup (n + start) pieces = (slotsFrom lookup start pieces).map (moved n) := by
  induction pieces generalizing start with
  | nil => rfl
  | cons s rest ih =>
      cases s with
      | char c =>
          simp only [slotsFrom, Nat.add_assoc]
          exact ih _
      | hole h =>
          cases hvalue : lookup h.key with
          | some value =>
              simp only [slotsFrom, hvalue, Nat.add_assoc]
              exact ih _
          | none =>
              simp only [slotsFrom, hvalue, Nat.add_assoc, List.map_cons]
              exact congrArg (List.cons _) (ih _)

section

variable (hproper : h.Proper) (before after : String)

include hproper

theorem segments_append_hole :
    segments (before ++ String.ofList h.spelling ++ after).toList
      = segments before.toList ++ .hole h :: segments after.toList := by
  rw [String.toList_append, String.toList_append, String.toList_ofList, List.append_assoc]
  exact segmentsFrom_append_hole hproper before.toList after.toList (Nat.zero_le _)

/-- What stands around a hole is rendered on its own. -/
theorem render_append_hole :
    render (before ++ String.ofList h.spelling ++ after) lookup
      = render before lookup ++ String.ofList ((Segment.hole h).fill lookup)
        ++ render after lookup := by
  rw [render, segments_append_hole hproper, List.flatMap_append, List.flatMap_cons,
    String.ofList_append, String.ofList_append, ← String.append_assoc]
  rfl

/-- A hole without a value gets a slot where it stands. -/
theorem slots_append_hole (hnone : lookup h.key = none) :
    slots (before ++ String.ofList h.spelling ++ after) lookup
      = slots before lookup ++
        { part := 0, start := byteSize (render before lookup).toList
          stop := byteSize (render before lookup).toList + byteSize h.spelling, name := h.key }
          :: (slots after lookup).map
              (moved (byteSize (render before lookup).toList + byteSize h.spelling)) := by
  have hfill : (Segment.hole h).fill lookup = h.spelling := by simp only [Segment.fill, hnone]
  rw [slots, segments_append_hole hproper, slotsFrom_append, Nat.zero_add, slotsFrom, hfill]
  simp only [hnone]
  rw [slots, slots, render, String.toList_ofList, ← slotsFrom_add, Nat.add_zero]

end

/-! ## All together -/

/-- **Holes are the grammar, wherever they stand.** Two holes in a text never
overlap, so there is one way to cut it at all of them. The placeholders of a
template are the names of these holes, each once and in their order, and
rendering it, in one pass or in two, fills each hole that has a value and
leaves all other characters as they are. -/
theorem holes_exact (template : String) :
    (∀ (h h' : Hole) (before before' : List Char),
      h.Occurs template.toList before → h'.Occurs template.toList before' →
        before = before' ∧ h = h' ∨ before.length + h.spelling.length ≤ before'.length ∨
          before'.length + h'.spelling.length ≤ before.length) ∧
    (∃! pieces, Cuts template.toList pieces) ∧
    ∀ pieces, Cuts template.toList pieces →
      Firsts (placeholders template) (pieces.filterMap fun s => s.hole?.map Hole.key) ∧
      ∀ lookup, (render template lookup).toList = pieces.flatMap (Segment.fill lookup) ∧
        renderWithSlots template lookup = (render template lookup, slots template lookup) := by
  refine ⟨fun h h' before before' => occurs_disjoint, ?_, ?_⟩
  · exact ⟨_, cuts_iff.mpr rfl, fun pieces hcuts => cuts_iff.mp hcuts⟩
  · intro pieces hcuts
    obtain rfl := cuts_iff.mp hcuts
    refine ⟨firsts_placeholders template, fun lookup => ⟨?_, renderWithSlots_eq template lookup⟩⟩
    rw [render, String.toList_ofList]

/-- Braces that open no hole: one too many, one with no name in it, and one within a value. -/
def nearMisses : String := "{{{a}}}{{ 1 }}{{ b }}"

theorem holes_exact_nearMisses :
    let first : Hole := ⟨[], ['a'], []⟩
    let second : Hole := ⟨[' '], ['b'], [' ']⟩
    let before := "{{{a}}}{{ 1 }}".toList
    first.Occurs nearMisses.toList ['{'] ∧ second.Occurs nearMisses.toList before ∧
      ['{'].length + first.spelling.length ≤ before.length ∧
      Firsts (placeholders nearMisses) ["a", "b"] ∧
      (renderWithSlots nearMisses fun name => if name = "a" then some "{{b}}" else none)
        = ("{{{b}}}{{ 1 }}{{ b }}",
          [{ part := 0, start := 14, stop := 21, name := "b" }]) := by
  intro first second before
  obtain ⟨hdisjoint, -, hcuts⟩ := holes_exact nearMisses
  have hfirst : first.Occurs nearMisses.toList ['{'] :=
    ⟨⟨nofun, ⟨'a', [], rfl, by decide⟩, List.all_eq_true.mp rfl, nofun⟩,
      nearMisses.toList.drop 6, by decide⟩
  have hsecond : second.Occurs nearMisses.toList before :=
    ⟨⟨List.all_eq_true.mp rfl, ⟨'b', [], rfl, by decide⟩, List.all_eq_true.mp rfl,
      List.all_eq_true.mp rfl⟩, [], by decide⟩
  have hbehind : ['{'].length + first.spelling.length ≤ before.length := by
    rcases hdisjoint first second ['{'] before hfirst hsecond with h | h | h
    · exact absurd h.1 (by decide)
    · exact h
    · exact absurd h (by decide)
  obtain ⟨hfirsts, hrender⟩ := hcuts (segments nearMisses.toList) (cuts_iff.mpr rfl)
  refine ⟨hfirst, hsecond, hbehind, ?_, ?_⟩
  · have hnames : (segments nearMisses.toList).filterMap (fun s => s.hole?.map Hole.key)
        = ["a", "b"] := by decide +kernel
    rwa [hnames] at hfirsts
  · rw [(hrender _).2]
    decide +kernel

end Ensemble.Template
