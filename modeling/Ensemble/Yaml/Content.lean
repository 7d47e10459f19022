import Ensemble.Json.Reader
import Ensemble.Yaml.Cursor

/-!
# The texts of YAML scalars

How plain, quoted and block scalars are put together from their lines. Within plain and quoted
scalars a single line break is read as a space and further ones as themselves. All functions have
fuel, for which the length of the text is always enough.
-/

namespace Ensemble.Yaml

/-! ## Folding -/

/-- The blanks between two words: gaps on one line, or a first line break and further ones. -/
structure Fold where
  gaps : List Char
  first : List Char
  further : List Char
  isBroken : Bool
deriving Repr

namespace Fold

def empty : Fold := { gaps := [], first := [], further := [], isBroken := false }

/-- What the blanks are read as. -/
def join (f : Fold) : List Char :=
  if !f.isBroken then f.gaps
  else if f.first = ['\n'] then if f.further.isEmpty then [' '] else f.further
  else f.first ++ f.further

def addGap (f : Fold) (c : Char) : Fold :=
  if f.isBroken then f else { f with gaps := f.gaps ++ [c] }

def addBreak (f : Fold) (text : List Char) : Fold :=
  if f.isBroken then { f with further := f.further ++ text }
  else { f with gaps := [], first := text, isBroken := true }

end Fold

/-- Reads gaps and line breaks. A tab before column `indent` of a new line is an error. -/
def blanks? (indent : Nat) : Nat → Fold → Cursor → Option (Fold × Cursor)
  | 0, f, c => some (f, c)
  | fuel + 1, f, c =>
    match c.peek? with
    | none => some (f, c)
    | some ch =>
      if isGap ch then
        if f.isBroken && c.column < indent && ch = '\t' then none
        else blanks? indent fuel (f.addGap ch) c.skip
      else if isBreak ch then blanks? indent fuel (f.addBreak c.breakText) c.skipBreak
      else some (f, c)

/-! ## Plain scalars -/

def isFlowMark (c : Char) : Bool := c = ',' || c = '[' || c = ']' || c = '{' || c = '}'

/-- Reads the characters of a plain scalar up to a blank or a mark that ends it. -/
def plainWord? (inFlow : Bool) : Nat → Cursor → Option (List Char × Cursor)
  | 0, c => some ([], c)
  | fuel + 1, c =>
    if c.endsWord 0 then some ([], c)
    else if inFlow && c.has 0 (· == ':') && c.has 1 (fun ch => isFlowMark ch || ch = '?') then none
    else if (c.has 0 (· == ':') && c.endsWord 1) || (inFlow && c.has 0 isFlowMark) then some ([], c)
    else
      match c.peek? with
      | none => some ([], c)
      | some ch => (plainWord? inFlow fuel c.skip).map fun (word, c) => (ch :: word, c)

/-- Reads the rest of a plain scalar: its text, and whether line breaks follow it. -/
def plain? (inFlow : Bool) (indent : Nat) :
    Nat → List Char → Fold → Cursor → Option (List Char × Bool × Cursor)
  | 0, text, f, c => some (text, f.isBroken, c)
  | fuel + 1, text, f, c =>
    if c.atDocumentMark || c.has 0 (· == '#') then some (text, f.isBroken, c)
    else
      match plainWord? inFlow (c.rest.length + 1) c with
      | none => none
      | some (word, c) =>
        let (text, f) := if word.isEmpty then (text, f) else (text ++ f.join ++ word, .empty)
        if c.atEnd || !c.endsWord 0 then some (text, f.isBroken, c)
        else
          match blanks? indent (c.rest.length + 1) f c with
          | none => none
          | some (f, c) =>
            if !inFlow && c.column < indent then some (text, f.isBroken, c)
            else plain? inFlow indent fuel text f c

/-! ## Quoted scalars -/

/-- The character of an escape with one letter. -/
def escaped? (c : Char) : Option Char :=
  match c with
  | '0' => some '\x00'
  | 'a' => some '\x07'
  | 'b' => some '\x08'
  | 't' => some '\t'
  | '\t' => some '\t'
  | 'n' => some '\n'
  | 'v' => some '\x0b'
  | 'f' => some '\x0c'
  | 'r' => some '\r'
  | 'e' => some '\x1b'
  | ' ' => some ' '
  | '"' => some '"'
  | '/' => some '/'
  | '\\' => some '\\'
  | 'N' => some '\u0085'
  | '_' => some '\u00a0'
  | 'L' => some '\u2028'
  | 'P' => some '\u2029'
  | _ => none

/-- How many digits an escape by number has. -/
def escapeWidth? (c : Char) : Option Nat :=
  if c = 'x' then some 2 else if c = 'u' then some 4 else if c = 'U' then some 8 else none

/-- The character of hexadecimal digits. -/
def charOfHex? (digits : List Char) : Option Char := do
  let values ← digits.mapM Json.Reader.hexValue?
  let n := values.foldl (fun n d => n * 16 + d) 0
  if (0xD800 ≤ n && n ≤ 0xDFFF) || 0x10FFFF < n then none else some (Char.ofNat n)

/-- Reads a quoted scalar up to a blank or its end: the text, whether an escaped line break follows
it, and where it stops. -/
def quotedWord? (single : Bool) : Nat → Cursor → Option (List Char × Bool × Cursor)
  | 0, c => some ([], false, c)
  | fuel + 1, c =>
    if c.endsWord 0 then some ([], false, c)
    else
      let more (ch : Char) (c : Cursor) : Option (List Char × Bool × Cursor) :=
        (quotedWord? single fuel c).map fun (word, broken, c) => (ch :: word, broken, c)
      match c.rest with
      | [] => some ([], false, c)
      | '\'' :: next =>
        if !single then more '\'' c.skip
        else if next.head? = some '\'' then more '\'' (c.skipN 2)
        else some ([], false, c)
      | '"' :: _ => if single then more '"' c.skip else some ([], false, c)
      | '\\' :: next =>
        if single then more '\\' c.skip
        else
          match next with
          | [] => none
          | e :: _ =>
            if isBreak e then some ([], true, c.skip.skipBreak)
            else
              match escaped? e with
              | some ch => more ch (c.skipN 2)
              | none => do
                let width ← escapeWidth? e
                let digits := (c.rest.drop 2).take width
                if digits.length < width then none
                else more (← charOfHex? digits) (c.skipN (2 + width))
      | ch :: _ => more ch c.skip

/-- Reads the rest of a quoted scalar, up to and with its closing quote. -/
def quoted? (single : Bool) : Nat → List Char → Cursor → Option (List Char × Cursor)
  | 0, _, _ => none
  | fuel + 1, text, c =>
    if c.atDocumentMark || c.atEnd then none
    else
      match quotedWord? single (c.rest.length + 1) c with
      | none => none
      | some (word, broken, c) =>
        let text := text ++ word
        if c.has 0 fun ch => ch == if single then '\'' else '"' then some (text, c.skip)
        else
          match blanks? 0 (c.rest.length + 1) { Fold.empty with isBroken := broken } c with
          | none => none
          | some (f, c) => quoted? single fuel (text ++ f.join) c

/-! ## Block scalars -/

/-- Which of the line breaks at its end belong to a block scalar: none, one, or all. -/
inductive Chomp
  | strip
  | clip
  | keep
deriving DecidableEq, Repr

def chomp? (c : Char) : Option Chomp :=
  if c = '-' then some .strip else if c = '+' then some .keep else none

/-- Digits for the depth of indentation start at one. -/
def depth? (c : Char) : Option Nat :=
  if c.isDigit && c ≠ '0' then some (c.toNat - '0'.toNat) else none

/-- Reads the marks after the one that starts a block scalar, in either order. -/
def blockHeader? (c : Cursor) : Option (Chomp × Option Nat × Cursor) :=
  match c.peek? with
  | none => some (.clip, none, c)
  | some a =>
    match chomp? a with
    | some chomp =>
      let c := c.skip
      if c.has 0 Char.isDigit then do
        let depth ← depth? (← c.peek?)
        return (chomp, some depth, c.skip)
      else some (chomp, none, c)
    | none =>
      if a.isDigit then do
        let depth ← depth? a
        let c := c.skip
        match c.peek?.bind chomp? with
        | some chomp => return (chomp, some depth, c.skip)
        | none => return (.clip, some depth, c)
      else some (.clip, none, c)

/-- Skips the empty lines before a line of a block scalar, which is indented to the given column
or, before the first line, by as much as is there: the line breaks and the widest indentation. -/
def emptyLines? (indent : Option Nat) :
    Nat → List Char → Nat → Cursor → Option (List Char × Nat × Cursor)
  | 0, breaks, widest, c => some (breaks, widest, c)
  | fuel + 1, breaks, widest, c =>
    let spaces := (c.rest.takeWhile (· == ' ')).length
    let c := c.skipN <| match indent with
      | none => spaces
      | some n => min spaces (n - c.column)
    let widest := max widest c.column
    let before := match indent with
      | none => true
      | some n => c.column < n
    if before && c.has 0 (· == '\t') then none
    else if c.has 0 isBreak then emptyLines? indent fuel (breaks ++ c.breakText) widest c.skipBreak
    else some (breaks, widest, c)

/-- Reads the lines of a block scalar. `lead` is the line break before the line at the cursor,
`breaks` are those of empty lines after it. -/
def blockLines? (literal : Bool) (indent : Nat) :
    Nat → List Char → List Char → List Char → Bool → Cursor
      → Option (List Char × List Char × List Char × Cursor)
  | 0, text, lead, breaks, _, c => some (text, lead, breaks, c)
  | fuel + 1, text, lead, breaks, afterGap, c =>
    if c.column ≠ indent || c.atEnd then some (text, lead, breaks, c)
    else
      let startsGap := c.has 0 isGap
      let joined :=
        if !literal && lead = ['\n'] && !afterGap && !startsGap then
          if breaks.isEmpty then [' '] else breaks
        else lead ++ breaks
      let line := c.rest.takeWhile fun ch => !isBreak ch
      let c := c.skipN line.length
      let lead := c.breakText
      match emptyLines? (some indent) (c.rest.length + 1) [] 0 c.skipBreak with
      | none => none
      | some (breaks, _, c) =>
        blockLines? literal indent fuel (text ++ joined ++ line) lead breaks startsGap c

/-- Reads a block scalar after the mark that starts it; `outer` is the column of the collection
that it is in. -/
def block? (literal : Bool) (outer : Int) (c : Cursor) : Option (List Char × Cursor) := do
  let (chomp, depth, c) ← blockHeader? c
  let c := c.skipWhile isGap
  let c := if c.has 0 (· == '#') then c.skipWhile fun ch => !isBreak ch else c
  if !c.atLineEnd then none
  let c := c.skipBreak
  let fixed := depth.map fun n => if 0 ≤ outer then outer.toNat + n else n
  let (breaks, widest, c) ← emptyLines? fixed (c.rest.length + 1) [] 0 c
  let indent := fixed.getD (max widest (max (outer + 1).toNat 1))
  let (text, lead, breaks, c) ←
    blockLines? literal indent (c.rest.length + 1) [] [] breaks false c
  return match chomp with
    | .strip => (text, c)
    | .clip => (text ++ lead, c)
    | .keep => (text ++ lead ++ breaks, c)

end Ensemble.Yaml
