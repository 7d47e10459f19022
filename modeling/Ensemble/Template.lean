import Ensemble.Plan.Step
import Ensemble.Text.Characters
import Ensemble.Text.Utf8

/-!
# Templates

A template is a text with holes such as `{{ name }}`. `segments` reads a template into its holes
and the characters between them, `render` fills the holes that have a value and leaves the others
as they are spelled, and `renderWithSlots` also says where the ones that were left stand in the
result. A value is never read for holes of its own.
-/

namespace Ensemble.Template

open Text

def isNameStart (c : Char) : Bool := c.isAlpha || c = '_'

def isNameChar (c : Char) : Bool :=
  c.isAlphanum || c = '_' || c = '.' || c = ':' || c = '/' || c = '-'

/-- A hole: a name between double braces, with blanks around it. -/
structure Hole where
  left : List Char
  name : List Char
  right : List Char
deriving DecidableEq, Repr

/-- The hole as it stands in the template. -/
def Hole.spelling (h : Hole) : List Char :=
  '{' :: '{' :: (h.left ++ (h.name ++ (h.right ++ ['}', '}'])))

def Hole.key (h : Hole) : String := String.ofList h.name

/-- The hole that a text starts with. -/
def hole? : List Char → Option Hole
  | '{' :: '{' :: cs =>
    let left := cs.takeWhile isBlank
    let cs := cs.dropWhile isBlank
    let name := cs.takeWhile isNameChar
    let cs := cs.dropWhile isNameChar
    let right := cs.takeWhile isBlank
    match name, cs.dropWhile isBlank with
    | c :: _, '}' :: '}' :: _ => if isNameStart c then some { left, name, right } else none
    | _, _ => none
  | _ => none

/-- A piece of a template. -/
inductive Segment
  | char (c : Char)
  | hole (h : Hole)
deriving DecidableEq, Repr

/-- The pieces of a text after its first `skip` characters. -/
def segmentsFrom : Nat → List Char → List Segment
  | _, [] => []
  | skip + 1, _ :: cs => segmentsFrom skip cs
  | 0, c :: cs =>
    match hole? (c :: cs) with
    | some h => .hole h :: segmentsFrom (h.spelling.length - 1) cs
    | none => .char c :: segmentsFrom 0 cs

def segments (template : List Char) : List Segment := segmentsFrom 0 template

def Segment.hole? : Segment → Option Hole
  | .hole h => some h
  | .char _ => none

/-- The names of the holes in the order in which they occur. -/
def names (template : String) : List String :=
  (segments template.toList).filterMap fun s => s.hole?.map Hole.key

/-- The names of the holes without repetitions, in the order of their first occurrence. -/
def placeholders (template : String) : List String := (names template).eraseDups

/-! ## Rendering -/

/-- A piece with its hole filled, if there is a value for it. -/
def Segment.fill (lookup : String → Option String) : Segment → List Char
  | .char c => [c]
  | .hole h =>
    match lookup h.key with
    | some value => value.toList
    | none => h.spelling

def render (template : String) (lookup : String → Option String) : String :=
  String.ofList ((segments template.toList).flatMap (Segment.fill lookup))

/-- Writes a piece behind a text, and notes its place if it is a hole without a value. -/
def write (lookup : String → Option String) :
    List Char × List Slot → Segment → List Char × List Slot
  | (out, slots), .char c => (out ++ [c], slots)
  | (out, slots), .hole h =>
    match lookup h.key with
    | some value => (out ++ value.toList, slots)
    | none =>
      let slot := { part := 0, start := byteSize out, stop := byteSize (out ++ h.spelling),
                    name := h.key }
      (out ++ h.spelling, slots ++ [slot])

/-- Renders in one pass, and tells where the holes stand that were left. -/
def renderWithSlots (template : String) (lookup : String → Option String) : String × List Slot :=
  let (out, slots) := (segments template.toList).foldl (write lookup) ([], [])
  (String.ofList out, slots)

/-- Renders with the values of a list; the first pair of a name counts. -/
def renderPairs (template : String) (pairs : List (String × String)) : String :=
  render template fun name => pairs.lookup name

end Ensemble.Template
