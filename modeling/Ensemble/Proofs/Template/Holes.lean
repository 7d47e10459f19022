import Ensemble.Proofs.Text.Utf8
import Ensemble.Template
import Mathlib.Data.List.Induction
import Mathlib.Data.List.Nodup

/-!
# Holes of a template

`Hole.Proper` is the grammar of holes: a name between double braces, with
blanks around it. The scanner takes for a hole what the grammar allows and
nothing else (`hole?_eq_some_iff`), and its pieces are all of the text
(`spelled_segmentsFrom`). What is rendered depends on the values of the
names in the template only (`render_congr`), and `renderWithSlots` gives in
one pass what `render` and `slots` give in two (`renderWithSlots_eq`). The
holes that a rendering leaves open stand in the rendered text as they are
spelled, one behind the other, and `slots` lists where
(`spelled_of_mem_slotsFrom`, `slotsFrom_ordered`).
-/

namespace Ensemble.Template

open Text

/-! ## The grammar -/

namespace Hole

/-- A name that starts with a letter or an underscore, with blanks around it. -/
structure Proper (h : Hole) : Prop where
  left : ∀ c ∈ h.left, isBlank c = true
  start : ∃ c rest, h.name = c :: rest ∧ isNameStart c = true
  name : ∀ c ∈ h.name, isNameChar c = true
  right : ∀ c ∈ h.right, isBlank c = true

theorem byteSize_spelling_pos (h : Hole) : 0 < byteSize h.spelling := by
  have hbrace := Char.utf8Size_pos '{'
  rw [spelling, byteSize]
  omega

end Hole

/-! ## The scanner -/

theorem mem_takeWhile {p : Char → Bool} {cs : List Char} {c : Char} (h : c ∈ cs.takeWhile p) :
    p c = true := List.all_eq_true.mp List.all_takeWhile c h

/-- A scan stops at the first character that it does not take. -/
theorem scan_append {p : Char → Bool} {taken : List Char} (rest : List Char)
    (htaken : ∀ c ∈ taken, p c = true) (hrest : ∀ c ∈ rest.head?, p c = false) :
    (taken ++ rest).takeWhile p = taken ∧ (taken ++ rest).dropWhile p = rest := by
  rw [List.takeWhile_append_of_pos htaken, List.dropWhile_append_of_pos htaken]
  cases rest with
  | nil => simp
  | cons c rest =>
      have hc : p c = false := hrest c rfl
      simp [hc]

theorem isNameChar_of_start {c : Char} (h : isNameStart c = true) : isNameChar c = true := by
  simp only [isNameStart, isNameChar, Char.isAlphanum, Bool.or_eq_true] at h ⊢
  rcases h with h | h <;> simp [h]

theorem isAlpha_eq (c : Char) :
    c.isAlpha = (decide (65 ≤ c.val ∧ c.val ≤ 90)
      || decide (97 ≤ c.val) && decide (c.val ≤ 122)) := rfl

/-- No blank may stand in a name, so a name ends where the blanks behind it start. -/
theorem isNameChar_of_blank {c : Char} (h : isBlank c = true) : isNameChar c = false := by
  cases hname : isNameChar c with
  | false => rfl
  | true =>
      simp only [isBlank, isNameChar, Char.isAlphanum, isAlpha_eq, Char.isDigit, Bool.or_eq_true,
        Bool.and_eq_true, decide_eq_true_eq, beq_iff_eq, Char.ext_iff, UInt32.le_iff_toNat_le,
        ← UInt32.toNat_inj, Char.toNat] at h hname
      simp at h hname
      omega

/-- What is read as a hole is one, and the text starts with its spelling. -/
theorem proper_of_hole? {cs : List Char} {h : Hole} (hc : hole? cs = some h) :
    h.Proper ∧ ∃ rest, cs = h.spelling ++ rest := by
  unfold hole? at hc
  split at hc
  · rename_i cs
    dsimp only at hc
    split at hc
    · rename_i c name rest hname hrest
      split at hc
      · rename_i hstart
        obtain rfl := Option.some.inj hc
        refine ⟨⟨fun c hc => mem_takeWhile hc, ⟨c, name, hname, hstart⟩,
          fun c hc => mem_takeWhile hc, fun c hc => mem_takeWhile hc⟩, rest, ?_⟩
        simp only [Hole.spelling, List.cons_append, List.append_assoc, List.nil_append, ← hrest,
          List.takeWhile_append_dropWhile]
      · cases hc
    · cases hc
  · cases hc

/-- Each hole is read back from its spelling, whatever follows. -/
theorem hole?_spelling {h : Hole} (hproper : h.Proper) (rest : List Char) :
    hole? (h.spelling ++ rest) = some h := by
  obtain ⟨left, name, right⟩ := h
  obtain ⟨hleft, ⟨c, name', hname, hstart⟩, hchars, hright⟩ := hproper
  obtain rfl : name = c :: name' := hname
  have hblank : isBlank c = false := by
    refine Bool.eq_false_iff.mpr fun hblank => ?_
    have hname := isNameChar_of_blank hblank
    rw [isNameChar_of_start hstart] at hname
    cases hname
  -- the three scans, each up to what the next one starts with
  obtain ⟨htake₁, hdrop₁⟩ :=
    scan_append (c :: name' ++ (right ++ '}' :: '}' :: rest)) hleft (by rintro d ⟨⟩; exact hblank)
  obtain ⟨htake₂, hdrop₂⟩ := scan_append (right ++ '}' :: '}' :: rest) hchars (by
    intro d hd
    cases right with
    | nil =>
        obtain rfl := Option.some.inj hd
        decide
    | cons r right =>
        obtain rfl := Option.some.inj hd
        exact isNameChar_of_blank (hright _ (List.mem_cons_self ..)))
  obtain ⟨htake₃, hdrop₃⟩ := scan_append ('}' :: '}' :: rest) hright (by rintro d ⟨⟩; decide)
  have htext : Hole.spelling ⟨left, c :: name', right⟩ ++ rest
      = '{' :: '{' :: (left ++ (c :: name' ++ (right ++ '}' :: '}' :: rest))) := by
    simp [Hole.spelling]
  rw [htext, hole?]
  simp only [htake₁, hdrop₁, htake₂, hdrop₂, htake₃, hdrop₃, hstart, if_true]

/-- The scanner reads the grammar: a hole, spelled at the front of the text. -/
theorem hole?_eq_some_iff {cs : List Char} {h : Hole} :
    hole? cs = some h ↔ h.Proper ∧ ∃ rest, cs = h.spelling ++ rest := by
  constructor
  · exact proper_of_hole?
  · rintro ⟨hproper, rest, rfl⟩
    exact hole?_spelling hproper rest

theorem proper_of_mem_segmentsFrom {skip : Nat} {cs : List Char} {h : Hole}
    (hmem : Segment.hole h ∈ segmentsFrom skip cs) : h.Proper := by
  induction cs generalizing skip with
  | nil => cases skip <;> cases hmem
  | cons c cs ih =>
      cases skip with
      | succ skip => exact ih (by simpa only [segmentsFrom] using hmem)
      | zero =>
          rw [segmentsFrom] at hmem
          split at hmem
          · rename_i h' hread
            rcases List.mem_cons.mp hmem with heq | hmem
            · obtain rfl := Segment.hole.inj heq
              exact (hole?_eq_some_iff.mp hread).1
            · exact ih hmem
          · rcases List.mem_cons.mp hmem with heq | hmem
            · cases heq
            · exact ih hmem

/-! ## Pieces and names -/

/-- The pieces of a text are all of it, each as it is spelled. -/
theorem spelled_segmentsFrom (skip : Nat) (cs : List Char) :
    (segmentsFrom skip cs).flatMap (Segment.fill fun _ => none) = cs.drop skip := by
  induction cs generalizing skip with
  | nil => cases skip <;> simp [segmentsFrom]
  | cons c cs ih =>
      cases skip with
      | succ skip => rw [segmentsFrom, ih, List.drop_succ_cons]
      | zero =>
          rw [segmentsFrom]
          split
          · rename_i h hread
            obtain ⟨-, rest, hcs⟩ := hole?_eq_some_iff.mp hread
            have hdrop : cs.drop (h.spelling.length - 1) = rest := by
              obtain ⟨-, rfl⟩ := List.cons.inj hcs
              exact List.drop_left' rfl
            rw [List.flatMap_cons, ih, hdrop, hcs]
            rfl
          · rw [List.flatMap_cons, ih]
            rfl

theorem mem_names {template name : String} :
    name ∈ names template ↔ ∃ h, Segment.hole h ∈ segments template.toList ∧ h.key = name := by
  simp only [names, List.mem_filterMap]
  constructor
  · rintro ⟨s | h, hs, hname⟩
    · cases hname
    · exact ⟨h, hs, Option.some.inj hname⟩
  · rintro ⟨h, hh, rfl⟩
    exact ⟨.hole h, hh, rfl⟩

/-- The names of a list, each once, in the order in which they first occur. -/
structure Firsts (firsts names : List String) : Prop where
  nodup : firsts.Nodup
  mem : ∀ name, name ∈ firsts ↔ name ∈ names
  order : firsts.Pairwise fun a b => names.idxOf a < names.idxOf b

/-- A name at the end is new, or it has been there before. -/
theorem Firsts.concat {firsts names : List String} (h : Firsts firsts names) (name : String) :
    Firsts (if name ∈ names then firsts else firsts ++ [name]) (names ++ [name]) := by
  have hearlier : firsts.Pairwise fun a b =>
      (names ++ [name]).idxOf a < (names ++ [name]).idxOf b := by
    refine h.order.imp_of_mem fun ha hb hlt => ?_
    rwa [List.idxOf_append, if_pos ((h.mem _).mp ha), List.idxOf_append, if_pos ((h.mem _).mp hb)]
  split
  · rename_i hname
    refine ⟨h.nodup, fun other => ?_, hearlier⟩
    rw [h.mem, List.mem_append, List.mem_singleton]
    constructor
    · exact .inl
    · rintro (hother | rfl)
      · exact hother
      · exact hname
  · rename_i hname
    refine ⟨?_, fun other => ?_, ?_⟩
    · refine List.nodup_append.mpr ⟨h.nodup, List.nodup_singleton _, ?_⟩
      rintro other hother _ hmem rfl
      rw [List.mem_singleton.mp hmem, h.mem] at hother
      exact hname hother
    · rw [List.mem_append, List.mem_append, h.mem]
    · refine List.pairwise_append.mpr ⟨hearlier, List.pairwise_singleton .., ?_⟩
      intro other hother last hlast
      have hother := (h.mem other).mp hother
      rw [List.mem_singleton.mp hlast, List.idxOf_append, List.idxOf_append, if_pos hother,
        if_neg hname]
      have hlt := List.idxOf_lt_length_iff.mpr hother
      omega

theorem firsts_placeholders (template : String) :
    Firsts (placeholders template) (names template) := by
  rw [placeholders]
  induction names template using List.reverseRecOn with
  | nil => exact ⟨.nil, fun name => .rfl, .nil⟩
  | append_singleton names name ih =>
      have hnew : ([name].removeAll names).eraseDups = if name ∈ names then [] else [name] := by
        split <;> rename_i hname <;> simp [List.removeAll, List.eraseDups_cons, hname]
      have hconcat := ih.concat name
      rw [List.eraseDups_append, hnew]
      split at hconcat
      · rwa [if_pos ‹_›, List.append_nil]
      · rwa [if_neg ‹_›]

/-! ## What is rendered -/

/-- Where the holes without a value stand when the pieces are rendered from position `start` on. -/
def slotsFrom (lookup : String → Option String) (start : Nat) : List Segment → List Slot
  | [] => []
  | s :: rest =>
    let stop := start + byteSize (s.fill lookup)
    match s with
    | .char _ => slotsFrom lookup stop rest
    | .hole h =>
      match lookup h.key with
      | some _ => slotsFrom lookup stop rest
      | none => { part := 0, start, stop, name := h.key } :: slotsFrom lookup stop rest

/-- Where the holes without a value stand in the rendered text. -/
def slots (template : String) (lookup : String → Option String) : List Slot :=
  slotsFrom lookup 0 (segments template.toList)

variable {lookup lookup' : String → Option String}

theorem fill_congr {s : Segment} (h : ∀ hole, s = .hole hole → lookup hole.key = lookup' hole.key) :
    s.fill lookup = s.fill lookup' := by
  cases s with
  | char c => rfl
  | hole hole => rw [Segment.fill, Segment.fill, h hole rfl]

section

variable {template : String} (h : ∀ name ∈ names template, lookup name = lookup' name)

include h

/-- A text depends on the values of the names in its template only. -/
theorem render_congr : render template lookup = render template lookup' := by
  rw [render, render]
  refine congrArg String.ofList (List.flatMap_congr fun s hs => fill_congr ?_)
  rintro hole rfl
  exact h _ (mem_names.mpr ⟨hole, hs, rfl⟩)

end

/-- A template without holes is rendered as it is. -/
theorem render_of_names_eq_nil {template : String} (h : names template = []) :
    render template lookup = template := by
  have hspelled : render template (fun _ => none) = template := by
    rw [render, segments, spelled_segmentsFrom, List.drop_zero, String.ofList_toList]
  refine (render_congr fun name hname => ?_).trans hspelled
  rw [h] at hname
  cases hname

/-! ## One pass -/

theorem foldl_write (out : List Char) (slots : List Slot) (pieces : List Segment) :
    pieces.foldl (write lookup) (out, slots)
      = (out ++ pieces.flatMap (Segment.fill lookup),
        slots ++ slotsFrom lookup (byteSize out) pieces) := by
  induction pieces generalizing out slots with
  | nil => simp [slotsFrom]
  | cons s rest ih =>
      cases s with
      | char c =>
          rw [List.foldl_cons, write, ih]
          simp [slotsFrom, Segment.fill]
      | hole h =>
          cases hvalue : lookup h.key with
          | some value =>
              rw [List.foldl_cons, write, hvalue]
              simp [ih, slotsFrom, Segment.fill, hvalue]
          | none =>
              rw [List.foldl_cons, write, hvalue]
              simp [ih, slotsFrom, Segment.fill, hvalue]

theorem renderWithSlots_eq (template : String) (lookup : String → Option String) :
    renderWithSlots template lookup = (render template lookup, slots template lookup) := by
  rw [renderWithSlots, foldl_write]
  rfl

/-! ## Slots -/

variable {start : Nat} {segs : List Segment} {slot : Slot}

/-- A slot is a hole without a value, and stands where the rendered pieces
spell it. -/
theorem spelled_of_mem_slotsFrom (hmem : slot ∈ slotsFrom lookup start segs) :
    ∃ h before after, Segment.hole h ∈ segs ∧
      segs.flatMap (Segment.fill lookup) = before ++ h.spelling ++ after ∧
      slot = { part := 0, start := start + byteSize before
               stop := start + byteSize (before ++ h.spelling), name := h.key } := by
  induction segs generalizing start with
  | nil => cases hmem
  | cons s rest ih =>
      have hlater : slot ∈ slotsFrom lookup (start + byteSize (s.fill lookup)) rest →
          ∃ h before after, Segment.hole h ∈ s :: rest ∧
            (s :: rest).flatMap (Segment.fill lookup) = before ++ h.spelling ++ after ∧
            slot = { part := 0, start := start + byteSize before
                     stop := start + byteSize (before ++ h.spelling), name := h.key } := by
        intro hmem
        obtain ⟨h, before, after, hh, htext, rfl⟩ := ih hmem
        refine ⟨h, s.fill lookup ++ before, after, List.mem_cons_of_mem _ hh, ?_, ?_⟩
        · rw [List.flatMap_cons, htext, List.append_assoc, List.append_assoc, List.append_assoc]
        · simp only [byteSize_append, Slot.mk.injEq, true_and, and_true]
          omega
      cases s with
      | char c => exact hlater hmem
      | hole h =>
          cases hvalue : lookup h.key with
          | some value =>
              refine hlater ?_
              simpa only [slotsFrom, hvalue] using hmem
          | none =>
              have hfill : (Segment.hole h).fill lookup = h.spelling := by
                simp only [Segment.fill, hvalue]
              simp only [slotsFrom, hvalue, List.mem_cons] at hmem
              rcases hmem with rfl | hmem
              · exact ⟨h, [], _, List.mem_cons_self .., by rw [List.flatMap_cons, hfill]; rfl,
                  by rw [hfill]; rfl⟩
              · exact hlater hmem

/-- Slots come one behind the other. -/
theorem slotsFrom_ordered (lookup : String → Option String) (start : Nat) (segs : List Segment) :
    (slotsFrom lookup start segs).Pairwise fun a b => a.stop ≤ b.start := by
  induction segs generalizing start with
  | nil => exact .nil
  | cons s rest ih =>
      cases s with
      | char c => exact ih _
      | hole h =>
          cases hvalue : lookup h.key with
          | some value =>
              simp only [slotsFrom, hvalue]
              exact ih _
          | none =>
              simp only [slotsFrom, hvalue]
              refine List.pairwise_cons.mpr ⟨fun slot hslot => ?_, ih _⟩
              obtain ⟨_, _, _, -, -, rfl⟩ := spelled_of_mem_slotsFrom hslot
              exact Nat.le_add_right ..

/-- A text in which a hole is left open is not blank. -/
theorem not_blank_of_mem_slots {template : String} (hmem : slot ∈ slots template lookup) :
    isBlankText (render template lookup) = false := by
  obtain ⟨h, before, after, -, htext, -⟩ := spelled_of_mem_slotsFrom hmem
  refine List.all_eq_false.mpr ⟨'{', ?_, by decide⟩
  rw [render, String.toList_ofList, htext]
  simp [Hole.spelling]

end Ensemble.Template
