import Ensemble.Decimal.Reading
import Ensemble.Decode.Source
import Ensemble.Yaml.Node

/-!
# What YAML scalars mean

A plain scalar without a tag is null, a truth value, an integer or a float if it is spelled like
one, and else a string. Digits after a leading zero are a string. Integers have 64 bits; larger ones
have no meaning until they are too large for 128 bits, where they are read as floats.
-/

namespace Ensemble.Yaml.Scalar

def isNull (s : String) : Bool := s = "null" || s = "Null" || s = "NULL" || s = "~"

def bool? (s : String) : Option Bool :=
  if s = "true" || s = "True" || s = "TRUE" then some true
  else if s = "false" || s = "False" || s = "FALSE" then some false
  else none

/-! ## Numbers -/

def isSign (c : Char) : Bool := c = '+' || c = '-'

/-- Several digits of which the first is zero, after at most one sign. -/
def hasLeadingZero (cs : List Char) : Bool :=
  let digits := match cs with
    | c :: rest => if isSign c then rest else c :: rest
    | [] => []
  1 < digits.length && digits.head? == some '0' && digits.all Char.isDigit

/-- The number of digits to a base of at most sixteen. -/
def digits? (base : Nat) (cs : List Char) : Option Nat :=
  if cs.isEmpty then none
  else cs.foldlM (fun n c => do
    let d ← Json.Reader.hexValue? c
    if d < base then some (n * base + d) else none) 0

/-- A number without a sign, with its base if that is not ten. -/
def magnitude? (cs : List Char) : Option Nat :=
  match cs with
  | '0' :: 'x' :: rest => digits? 16 rest
  | '0' :: 'o' :: rest => digits? 8 rest
  | '0' :: 'b' :: rest => digits? 2 rest
  | _ => digits? 10 cs

/-- An integer of any size. -/
def integer? (cs : List Char) : Option Int :=
  if hasLeadingZero cs then none
  else
    match cs with
    | '-' :: rest => (magnitude? rest).map fun n => -(n : Int)
    | '+' :: rest => (magnitude? rest).map fun n => (n : Int)
    | _ => (magnitude? cs).map fun n => (n : Int)

/-- A float, which may be infinite or no number. -/
def float? (cs : List Char) : Option Float :=
  let unsigned := match cs with
    | '+' :: rest => rest
    | _ => cs
  let words (texts : List String) (cs : List Char) : Bool := texts.any fun t => t.toList == cs
  if cs.head? == some '+' && unsigned.head?.any isSign then none
  else if words [".inf", ".Inf", ".INF"] unsigned then some (1 / 0)
  else if words ["-.inf", "-.Inf", "-.INF"] cs then some (-(1 / 0))
  else if words [".nan", ".NaN", ".NAN"] cs then some (0 / 0)
  else (Decimal.double? unsigned).filter Float.isFinite

/-- An integer that is one of 64 bits; nothing for one that needs up to 128. -/
def ofInteger? (i : Int) : Option (Option Content) :=
  if -(Int.pow 2 63) ≤ i && i < Int.pow 2 64 then some (some (.number (.int i)))
  else if -(Int.pow 2 127) ≤ i && i < Int.pow 2 128 then some none
  else none

/-- The meaning of a plain scalar. -/
def plain? (s : String) : Option Content :=
  if s.isEmpty || isNull s then some .null
  else
    match bool? s with
    | some b => some (.bool b)
    | none =>
      match (integer? s.toList).bind ofInteger? with
      | some meaning => meaning
      | none =>
        if hasLeadingZero s.toList then some (.string s)
        else
          match float? s.toList with
          | some f => some (.number (.double f.toBits))
          | none => some (.string s)

/-! ## Tags -/

def boolTag : String := "tag:yaml.org,2002:bool"

def intTag : String := "tag:yaml.org,2002:int"

def floatTag : String := "tag:yaml.org,2002:float"

def nullTag : String := "tag:yaml.org,2002:null"

/-- The name of a variant that a tag is. -/
def variant? (tag : Option String) : Option String := do
  match (← tag).toList with
  | ['!'] => some "!"
  | '!' :: name => some (String.ofList name)
  | _ => none

/-- The meaning of a scalar. -/
def meaning? (s : String) (style : Style) (tag : Option String) : Option Content :=
  match tag with
  | none => if style = .plain then plain? s else some (.string s)
  | some t =>
    if (variant? tag).isSome then none
    else if t = boolTag then (bool? s).map .bool
    else if t = intTag then ((integer? s.toList).bind ofInteger?).join
    else if t = floatTag then (float? s.toList).map fun f => .number (.double f.toBits)
    else if t = nullTag then if isNull s then some .null else none
    else some (.string s)

/-- Whether a scalar may stand for a truth value or a number. -/
def isTyped (expected : String) (style : Style) (tag : Option String) : Bool :=
  style = .plain || (style = .literal && tag = some expected)

/-- An unsigned integer of 64 bits. -/
def count? (s : String) : Option UInt64 := do
  match ← integer? s.toList with
  | .ofNat n =>
    if n < UInt64.size && s.toList.head? != some '-' then some (UInt64.ofNat n) else none
  | .negSucc _ => none

end Ensemble.Yaml.Scalar
