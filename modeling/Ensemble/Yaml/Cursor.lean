/-!
# Places in a YAML text

A cursor is what is left of a text, with the line and the column that it stands at. A carriage
return and a line feed together are one line break.
-/

namespace Ensemble.Yaml

structure Cursor where
  rest : List Char
  line : Nat
  column : Nat
  /-- The characters before the cursor. -/
  index : Nat
deriving Repr

def isGap (c : Char) : Bool := c = ' ' || c = '\t'

def isBreak (c : Char) : Bool :=
  c = '\r' || c = '\n' || c = '\u0085' || c = '\u2028' || c = '\u2029'

/-- The characters of names of anchors and tags. -/
def isWord (c : Char) : Bool := c.isAlphanum || c = '_' || c = '-'

/-- The characters that a text may hold at all. -/
def isAllowed (c : Char) : Bool :=
  let n := c.toNat
  n == 0x09 || n == 0x0A || n == 0x0D || (0x20 ≤ n && n ≤ 0x7E) || n == 0x85
    || (0xA0 ≤ n && n ≤ 0xD7FF) || (0xE000 ≤ n && n ≤ 0xFFFD) || 0x10000 ≤ n

namespace Cursor

def ofText (cs : List Char) : Cursor := { rest := cs, line := 0, column := 0, index := 0 }

def peek? (c : Cursor) : Option Char := c.rest.head?

/-- Whether the `n`th character from here satisfies a test. -/
def has (c : Cursor) (n : Nat) (test : Char → Bool) : Bool := c.rest[n]?.any test

def atEnd (c : Cursor) : Bool := c.rest.isEmpty

/-- Whether the `n`th character from here is a gap or a line break, or the text ends there. -/
def endsWord (c : Cursor) (n : Nat) : Bool :=
  c.rest[n]?.all fun ch => isGap ch || isBreak ch

/-- Whether the line ends here. -/
def atLineEnd (c : Cursor) : Bool := c.peek?.all isBreak

def skip (c : Cursor) : Cursor :=
  match c.rest with
  | [] => c
  | _ :: rest => { c with rest, column := c.column + 1, index := c.index + 1 }

/-- Skips a line break, if there is one. -/
def skipBreak (c : Cursor) : Cursor :=
  match c.rest with
  | '\r' :: '\n' :: rest => { rest, line := c.line + 1, column := 0, index := c.index + 2 }
  | ch :: rest =>
    if isBreak ch then { rest, line := c.line + 1, column := 0, index := c.index + 1 } else c
  | [] => c

/-- The text that a line break stands for. -/
def breakText (c : Cursor) : List Char :=
  match c.peek? with
  | some ch =>
    if ch = '\u2028' || ch = '\u2029' then [ch] else if isBreak ch then ['\n'] else []
  | none => []

def skipN : Nat → Cursor → Cursor
  | 0, c => c
  | n + 1, c => skipN n c.skip

/-- Skips characters of the line while a test holds. -/
def skipWhile (test : Char → Bool) (c : Cursor) : Cursor :=
  skipN (c.rest.takeWhile test).length c

/-- A line that begins with three given characters as a word of their own. -/
def atMark (mark : Char) (c : Cursor) : Bool :=
  c.column == 0 && c.has 0 (· == mark) && c.has 1 (· == mark) && c.has 2 (· == mark) && c.endsWord 3

/-- Whether a document starts or ends here. -/
def atDocumentMark (c : Cursor) : Bool := c.atMark '-' || c.atMark '.'

end Cursor

end Ensemble.Yaml
