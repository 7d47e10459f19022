import Ensemble.Json.Document
import Ensemble.Decimal.Reading

/-!
# Reading JSON

The strict grammar: blanks are space, tab and line ends, nothing may follow the last value, strings
hold no raw control characters. `Document.parse?` is total; the number of characters bounds the
number of values, so the fuel never runs out. Up to 127 arrays and objects may be nested; the
contents of deeper ones are still checked but are unreadable.
-/

namespace Ensemble.Json.Reader

def isSpace (c : Char) : Bool := c = ' ' || c = '\t' || c = '\n' || c = '\r'

def skip : List Char → List Char
  | [] => []
  | c :: cs => if isSpace c then skip cs else c :: cs

/-! ## Strings -/

def hexValue? (c : Char) : Option Nat :=
  if '0' ≤ c ∧ c ≤ '9' then some (c.toNat - '0'.toNat)
  else if 'a' ≤ c ∧ c ≤ 'f' then some (c.toNat - 'a'.toNat + 10)
  else if 'A' ≤ c ∧ c ≤ 'F' then some (c.toNat - 'A'.toNat + 10)
  else none

/-- The code unit of four hexadecimal digits. -/
def codeUnit? (a b c d : Char) : Option Nat := do
  let a ← hexValue? a
  let b ← hexValue? b
  let c ← hexValue? c
  let d ← hexValue? d
  return ((a * 16 + b) * 16 + c) * 16 + d

def isHighSurrogate (n : Nat) : Bool := 0xD800 ≤ n && n ≤ 0xDBFF

def isLowSurrogate (n : Nat) : Bool := 0xDC00 ≤ n && n ≤ 0xDFFF

/-- The low half of a surrogate pair, if an escape for one follows. -/
def lowSurrogate? : List Char → Option Nat
  | '\\' :: 'u' :: a :: b :: c :: d :: _ => (codeUnit? a b c d).filter isLowSurrogate
  | _ => none

/-- The character of an escape with one letter. -/
def simpleEscape? (c : Char) : Option Char :=
  if c = '"' then some '"'
  else if c = '\\' then some '\\'
  else if c = '/' then some '/'
  else if c = 'b' then some '\x08'
  else if c = 'f' then some '\x0c'
  else if c = 'n' then some '\n'
  else if c = 'r' then some '\r'
  else if c = 't' then some '\t'
  else none

/-- A string after its opening quote: the characters, if they can be read, and what follows the
closing quote. -/
def stringBody : List Char → Option (Option (List Char) × List Char)
  | [] => none
  | '"' :: rest => some (some [], rest)
  | '\\' :: 'u' :: a :: b :: c :: d :: rest =>
    match codeUnit? a b c d with
    | none => none
    | some unit =>
      if isHighSurrogate unit then
        match lowSurrogate? rest with
        | some low =>
          match rest with
          | _ :: _ :: _ :: _ :: _ :: _ :: rest =>
            (stringBody rest).map fun (cs, rest) =>
              (cs.map (Char.ofNat (0x10000 + (unit - 0xD800) * 0x400 + (low - 0xDC00)) :: ·), rest)
          | _ => none
        | none => (stringBody rest).map fun (_, rest) => (none, rest)
      else if isLowSurrogate unit then (stringBody rest).map fun (_, rest) => (none, rest)
      else (stringBody rest).map fun (cs, rest) => (cs.map (Char.ofNat unit :: ·), rest)
  | '\\' :: c :: rest =>
    match simpleEscape? c with
    | none => none
    | some c => (stringBody rest).map fun (cs, rest) => (cs.map (c :: ·), rest)
  | c :: rest =>
    if c.toNat < 0x20 ∨ c = '\\' then none
    else (stringBody rest).map fun (cs, rest) => (cs.map (c :: ·), rest)

/-! ## Numbers -/

/-- An optional fraction: nothing, or a point and at least one digit. -/
def fraction? : List Char → Option (Option (List Char) × List Char)
  | '.' :: cs =>
    let digits := cs.takeWhile Char.isDigit
    if digits.isEmpty then none else some (some digits, cs.dropWhile Char.isDigit)
  | cs => some (none, cs)

/-- An optional exponent. -/
def exponent? : List Char → Option (Option Int × List Char)
  | [] => some (none, [])
  | c :: cs =>
    if c = 'e' ∨ c = 'E' then
      let (negative, cs) := match cs with
        | '-' :: cs => (true, cs)
        | '+' :: cs => (false, cs)
        | cs => (false, cs)
      let digits := cs.takeWhile Char.isDigit
      if digits.isEmpty then none
      else
        let n : Int := Decimal.ofDigits digits
        some (some (if negative then -n else n), cs.dropWhile Char.isDigit)
    else some (none, c :: cs)

/-- An integer where the text is one that fits, a double otherwise; nothing if it is infinite. -/
def numberOf? (negative : Bool) (whole : List Char) (places : Option (List Char))
    (exponent : Option Int) : Option Number :=
  let n := Decimal.ofDigits whole
  let fits := if negative then 0 < n && n ≤ Nat.pow 2 63 else n ≤ Decimal.maxUnsigned
  if places.isNone ∧ exponent.isNone ∧ fits then
    some (.int (if negative then -(n : Int) else n))
  else
    let lexeme : Decimal.Lexeme :=
      { negative, whole, places := places.getD [], exponent := exponent.getD 0 }
    lexeme.scaled?.map fun f => .double f.toBits

/-- A number after its sign. -/
def unsigned (negative : Bool) (cs : List Char) : Option (Document × List Char) := do
  let whole := cs.takeWhile Char.isDigit
  if whole.isEmpty || (whole.head? == some '0' && whole.length != 1) then failure
  let (places, rest) ← fraction? (cs.dropWhile Char.isDigit)
  let (exponent, rest) ← exponent? rest
  let document := match numberOf? negative whole places exponent with
    | some n => .number n
    | none => .unreadable
  return (document, rest)

def numberBody : List Char → Option (Document × List Char)
  | '-' :: cs => unsigned true cs
  | cs => unsigned false cs

/-! ## Values -/

/-- A container that may be nested once more. -/
def within (depth : Nat) (d : Document) : Document := if depth = 0 then .unreadable else d

mutual

/-- A value and what follows it; `depth` containers may still be nested. -/
def value : Nat → Nat → List Char → Option (Document × List Char)
  | 0, _, _ => none
  | fuel + 1, depth, cs =>
    match skip cs with
    | 'n' :: 'u' :: 'l' :: 'l' :: rest => some (.null, rest)
    | 't' :: 'r' :: 'u' :: 'e' :: rest => some (.bool true, rest)
    | 'f' :: 'a' :: 'l' :: 's' :: 'e' :: rest => some (.bool false, rest)
    | '"' :: rest =>
      (stringBody rest).map fun (cs, rest) =>
        (match cs with
          | some cs => .string (String.ofList cs)
          | none => .unreadable, rest)
    | '[' :: rest =>
      match skip rest with
      | ']' :: rest => some (within depth (.array []), rest)
      | _ =>
        match value fuel (depth - 1) rest with
        | none => none
        | some (first, rest) =>
          (items fuel (depth - 1) rest).map fun (others, rest) =>
            (within depth (.array (first :: others)), rest)
    | '{' :: rest =>
      match skip rest with
      | '}' :: rest => some (within depth (.object []), rest)
      | _ =>
        match field fuel (depth - 1) rest with
        | none => none
        | some (first, rest) =>
          (fields fuel (depth - 1) rest).map fun (others, rest) =>
            (within depth (.object (first :: others)), rest)
    | cs => numberBody cs

/-- The items of an array after its first one. -/
def items : Nat → Nat → List Char → Option (List Document × List Char)
  | 0, _, _ => none
  | fuel + 1, depth, cs =>
    match skip cs with
    | ']' :: rest => some ([], rest)
    | ',' :: rest =>
      match value fuel depth rest with
      | none => none
      | some (d, rest) => (items fuel depth rest).map fun (ds, rest) => (d :: ds, rest)
    | _ => none

/-- A field of an object. -/
def field : Nat → Nat → List Char → Option ((Option String × Document) × List Char)
  | 0, _, _ => none
  | fuel + 1, depth, cs =>
    match skip cs with
    | '"' :: rest =>
      match stringBody rest with
      | none => none
      | some (key, rest) =>
        match skip rest with
        | ':' :: rest =>
          (value fuel depth rest).map fun (d, rest) => ((key.map String.ofList, d), rest)
        | _ => none
    | _ => none

/-- The fields of an object after its first one. -/
def fields : Nat → Nat → List Char → Option (List (Option String × Document) × List Char)
  | 0, _, _ => none
  | fuel + 1, depth, cs =>
    match skip cs with
    | '}' :: rest => some ([], rest)
    | ',' :: rest =>
      match field fuel depth rest with
      | none => none
      | some (entry, rest) => (fields fuel depth rest).map fun (es, rest) => (entry :: es, rest)
    | _ => none

end

end Json.Reader

namespace Document

/-- How many arrays and objects may be nested. -/
def maxDepth : Nat := 127

/-- The document that a text is. -/
def parse? (cs : List Char) : Option Document :=
  match Json.Reader.value (cs.length + 1) maxDepth cs with
  | some (d, rest) => if (Json.Reader.skip rest).isEmpty then some d else none
  | none => none

end Document

/-- The free value that a text is. -/
def Json.parse? (s : String) : Option Json := (Document.parse? s.toList).bind Document.free?

end Ensemble
