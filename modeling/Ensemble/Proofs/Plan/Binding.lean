import Ensemble.Plan.Step
import Ensemble.Proofs.Template.Holes

/-!
# Binding what templates have left open

A template is rendered in two stages: once with the values that are known
when a flow is compiled, and once, slot by slot and from the back, with
those that are known when a step starts. `binding?_of_rendered` says that
both stages together are one rendering. The slots stand for exactly those
holes of the template that had no value in the first stage, so no value is
read for holes of its own.
-/

namespace Ensemble

open Text

namespace Binding

variable {lookup : String → Option String} {before hole after : List Char} {rest : List Part}
  {asked : List String} {name : String}

theorem replace?_between (before hole after : List Char) (value : String) :
    replace? (.ofList (before ++ hole ++ after)) (byteSize before) (byteSize (before ++ hole)) value
      = some (.ofList (before ++ value.toList ++ after)) := by
  have hhead : splitAt? (before ++ hole ++ after) (byteSize before)
      = some (before, hole ++ after) := by
    rw [List.append_assoc, splitAt?_append]
  have htail := splitAt?_append (before ++ hole) after
  have hle : ¬byteSize (before ++ hole) < byteSize before := by
    rw [byteSize_append]
    omega
  simp only [replace?, String.toList_ofList, hhead, htail, Option.bind_eq_bind, Option.bind_some,
    if_neg hle]

/-- The text of a slot, filled if there is a value for it. -/
def filled (lookup : String → Option String) (name : String) (hole : List Char) : List Char :=
  ((lookup name).map String.toList).getD hole

/-- A slot that stands for a hole of the text gives way to its value, and the
text around it stays. -/
theorem fill?_between :
    fill? lookup { content := .text (.ofList (before ++ hole ++ after)) :: rest, asked }
        { part := 0, start := byteSize before, stop := byteSize (before ++ hole), name }
      = some { content := .text (.ofList (before ++ filled lookup name hole ++ after)) :: rest
               asked := name :: asked } := by
  have hstart : isBoundary (before ++ hole ++ after) (byteSize before) = true := by
    rw [List.append_assoc, isBoundary_append]
  have hstop : isBoundary (before ++ hole ++ after) (byteSize (before ++ hole)) = true :=
    isBoundary_append ..
  unfold fill? filled
  simp only [List.getElem?_cons_zero, String.toList_ofList, hstart, hstop, Bool.and_self,
    if_true]
  cases lookup name with
  | none => rfl
  | some value =>
      dsimp only [Option.map_some, Option.getD_some]
      rw [replace?_between]
      rfl

end Binding

namespace Template

/-- The names of the holes that the first stage leaves open, in order. -/
def openNames (lookup : String → Option String) (segs : List Segment) : List String :=
  (segs.filterMap fun s => s.hole?.map Hole.key).filter fun name => (lookup name).isNone

theorem openNames_settled {lookup : String → Option String} {h : Hole} {value : String}
    (hvalue : lookup h.key = some value) (segs : List Segment) :
    openNames lookup (.hole h :: segs) = openNames lookup segs := by
  simp [openNames, Segment.hole?, hvalue]

theorem openNames_open {lookup : String → Option String} {h : Hole}
    (hvalue : lookup h.key = none) (segs : List Segment) :
    openNames lookup (.hole h :: segs) = h.key :: openNames lookup segs := by
  simp [openNames, Segment.hole?, hvalue]

/-- The slots of the pieces `segs` carry the names of their open holes. -/
theorem map_name_slotsFrom (lookup : String → Option String) (start : Nat) (segs : List Segment) :
    (slotsFrom lookup start segs).map Slot.name = openNames lookup segs := by
  induction segs generalizing start with
  | nil => rfl
  | cons s segs ih =>
      cases s with
      | char c => exact ih _
      | hole h =>
          cases hvalue : lookup h.key with
          | some value =>
              rw [openNames_settled hvalue]
              simp only [slotsFrom, hvalue]
              exact ih _
          | none =>
              rw [openNames_open hvalue]
              simp only [slotsFrom, hvalue, List.map_cons]
              rw [ih]

/-- First one lookup, then another. -/
def orElse (first second : String → Option String) (name : String) : Option String :=
  (first name).or (second name)

variable {first second : String → Option String} {rest : List Part}

/-- The second stage of the pieces `segs`, whose rendering stands after
`before`. -/
theorem fill_slotsFrom (segs : List Segment) (before : List Char) :
    (slotsFrom first (byteSize before) segs).foldrM (fun slot b => Binding.fill? second b slot)
        { content := .text (.ofList (before ++ segs.flatMap (Segment.fill first))) :: rest
          asked := [] }
      = some { content :=
                .text (.ofList (before ++ segs.flatMap (Segment.fill (orElse first second))))
                  :: rest
               asked := openNames first segs } := by
  induction segs generalizing before with
  | nil => rfl
  | cons s segs ih =>
      simp only [List.flatMap_cons]
      cases s with
      | char c =>
          have hih := ih (before ++ [c])
          rw [byteSize_append, List.append_assoc, List.append_assoc] at hih
          exact hih
      | hole h =>
          cases hfirst : first h.key with
          | some value =>
              have hih := ih (before ++ value.toList)
              rw [byteSize_append, List.append_assoc, List.append_assoc] at hih
              simpa only [slotsFrom, Segment.fill, orElse, hfirst, Option.some_or,
                openNames_settled hfirst] using hih
          | none =>
              -- the later slots are filled first, which leaves this hole where it is
              have hih := ih (before ++ h.spelling)
              rw [byteSize_append] at hih
              have hfill : (Segment.hole h).fill (orElse first second)
                  = Binding.filled second h.key h.spelling := by
                simp only [Segment.fill, orElse, hfirst, Option.none_or, Binding.filled]
                cases second h.key <;> rfl
              have hlater : (Segment.hole h).fill first = h.spelling := by
                simp only [Segment.fill, hfirst]
              simp only [slotsFrom, hlater, hfirst, openNames_open hfirst, List.foldrM_cons, hfill]
              rw [← List.append_assoc, hih]
              dsimp only [Option.bind_eq_bind, Option.bind_some]
              rw [← byteSize_append, Binding.fill?_between, List.append_assoc]

end Template

namespace Call

variable {c : Call} {first : String → Option String} {template : String} {rest : List Part}

/-- Both stages of a template are one rendering, with the values of the
first stage before those of the second. Only names of holes that the first
stage has left open are asked for. -/
theorem binding?_of_rendered
    (hcontent : c.message.content = .text (Template.render template first) :: rest)
    (hslots : c.slots = Template.slots template first) (second : String → Option String) :
    c.binding? second = some
      { content := .text (Template.render template (Template.orElse first second)) :: rest
        asked := (Template.names template).filter fun name => (first name).isNone } := by
  rw [binding?, hcontent, hslots, List.foldlM_reverse]
  exact Template.fill_slotsFrom (Template.segments template.toList) []

/-- A call without slots stays as it is. -/
theorem binding?_of_no_slots (hslots : c.slots = []) (second : String → Option String) :
    c.binding? second = some { content := c.message.content, asked := [] } := by
  rw [binding?, hslots]
  rfl

end Call

end Ensemble
