import Ensemble.Yaml.Content

/-!
# YAML tokens

The marks of a YAML text. The indentation of blocks is told by tokens of its own, and the start of
a mapping and the mark of its first key stand before the key, although only the colon after it
shows what it is: `Lexer` remembers where a key may have begun, and puts them there.
-/

namespace Ensemble.Yaml

/-- How a scalar is written. -/
inductive Style
  | plain
  | quoted
  | literal
deriving DecidableEq, Repr

inductive Token
  | versionDirective (major minor : Nat)
  | tagDirective (handle start : List Char)
  | documentStart
  | documentEnd
  | blockSequenceStart
  | blockMappingStart
  | blockEnd
  | flowSequenceStart
  | flowSequenceEnd
  | flowMappingStart
  | flowMappingEnd
  | blockEntry
  | flowEntry
  | key
  | value
  | alias (name : List Char)
  | anchor (name : List Char)
  | tag (handle suffix : List Char)
  | scalar (text : List Char) (style : Style)
deriving DecidableEq, Repr

/-- A place where a key may begin. It is required if nothing else can stand there. -/
structure KeyMark where
  isRequired : Bool
  token : Nat
  line : Nat
  column : Nat
  index : Nat
deriving Repr

structure Lexer where
  cursor : Cursor
  tokens : Array Token
  /-- The column of the innermost block, and those of the blocks around it. -/
  indent : Int
  outer : List Int
  /-- Where a key may begin, for each flow collection around and for the block. -/
  keys : List (Option KeyMark)
  keyAllowed : Bool

namespace Lexer

def ofText (cs : List Char) : Lexer :=
  { cursor := .ofText cs, tokens := #[], indent := -1, outer := [], keys := [none]
    keyAllowed := true }

def inFlow (l : Lexer) : Bool := 1 < l.keys.length

def push (l : Lexer) (t : Token) : Lexer := { l with tokens := l.tokens.push t }

/-! ## Blanks and indentation -/

/-- Skips blanks, comments and line breaks before the next token. -/
def skipBlanks : Nat → Lexer → Lexer
  | 0, l => l
  | fuel + 1, l =>
    let c := if l.cursor.column = 0 && l.cursor.has 0 (· == '\ufeff') then l.cursor.skip else l.cursor
    let tabs := l.inFlow || !l.keyAllowed
    let c := c.skipWhile fun ch => ch = ' ' || (tabs && ch = '\t')
    let c := if c.has 0 (· == '#') then c.skipWhile fun ch => !isBreak ch else c
    if c.has 0 isBreak then
      skipBlanks fuel { l with cursor := c.skipBreak, keyAllowed := l.keyAllowed || !l.inFlow }
    else { l with cursor := c }

/-- Ends the blocks that are indented more than the given column. -/
def closeBlocks (column : Int) : Nat → Lexer → Lexer
  | 0, l => l
  | fuel + 1, l =>
    if column < l.indent then
      closeBlocks column fuel
        { l.push .blockEnd with indent := l.outer.headD (-1), outer := l.outer.tail }
    else l

def closeTo (column : Int) (l : Lexer) : Lexer :=
  if l.inFlow then l else closeBlocks column (l.outer.length + 1) l

/-- Starts a block at a column, before the token of a given number, if it is indented more. -/
def openBlock (column place : Nat) (t : Token) (l : Lexer) : Lexer :=
  if l.inFlow || (column : Int) ≤ l.indent then l
  else
    { l with
      tokens := l.tokens.insertIdxIfInBounds place t, indent := column, outer := l.indent :: l.outer }

/-- Starts a block at the cursor. -/
def openHere (t : Token) (l : Lexer) : Lexer := l.openBlock l.cursor.column l.tokens.size t

/-! ## Keys -/

/-- Forgets the place where a key may have begun; a required one may not be forgotten. -/
def dropKey? (l : Lexer) : Option Lexer :=
  match l.keys with
  | some k :: rest => if k.isRequired then none else some { l with keys := none :: rest }
  | _ => some l

/-- Remembers that a key may begin at the cursor, if one is allowed there. -/
def markKey? (l : Lexer) : Option Lexer :=
  if l.keyAllowed then do
    let l ← l.dropKey?
    let mark : KeyMark :=
      { isRequired := !l.inFlow && l.indent == l.cursor.column, token := l.tokens.size
        line := l.cursor.line, column := l.cursor.column, index := l.cursor.index }
    return { l with keys := some mark :: l.keys.tail }
  else some l

/-- The key that a colon at the cursor ends. A key has one line and at most 1024 characters. -/
def currentKey? (l : Lexer) : Option (Option KeyMark) :=
  match l.keys.head? with
  | some (some k) =>
    if k.line < l.cursor.line || k.index + 1024 < l.cursor.index then
      if k.isRequired then none else some none
    else some (some k)
  | _ => some none

/-! ## Tokens -/

/-- A token of `width` characters. -/
def mark (t : Token) (width : Nat) (allowsKey : Bool) (l : Lexer) : Lexer :=
  { l.push t with cursor := l.cursor.skipN width, keyAllowed := allowsKey }

def documentMark? (t : Token) (l : Lexer) : Option Lexer := do
  return (← (l.closeTo (-1)).dropKey?).mark t 3 false

def flowStart? (t : Token) (l : Lexer) : Option Lexer := do
  let l ← l.markKey?
  return { l with keys := none :: l.keys }.mark t 1 true

def flowEnd? (t : Token) (l : Lexer) : Option Lexer := do
  let l ← l.dropKey?
  return { l with keys := if l.inFlow then l.keys.tail else l.keys }.mark t 1 false

def flowEntry? (l : Lexer) : Option Lexer := do
  return (← l.dropKey?).mark .flowEntry 1 true

def blockEntry? (l : Lexer) : Option Lexer := do
  if !l.inFlow && !l.keyAllowed then none
  return (← (l.openHere .blockSequenceStart).dropKey?).mark .blockEntry 1 true

def key? (l : Lexer) : Option Lexer := do
  if !l.inFlow && !l.keyAllowed then none
  let l ← (l.openHere .blockMappingStart).dropKey?
  return l.mark .key 1 (!l.inFlow)

def value? (l : Lexer) : Option Lexer := do
  match ← l.currentKey? with
  | some k =>
    let l := { l with
      tokens := l.tokens.insertIdxIfInBounds k.token .key, keys := none :: l.keys.tail }
    return (l.openBlock k.column k.token .blockMappingStart).mark .value 1 false
  | none =>
    if !l.inFlow && !l.keyAllowed then none
    return (l.openHere .blockMappingStart).mark .value 1 (!l.inFlow)

/-! ## Names -/

/-- The name of an anchor or an alias. -/
def name? (build : List Char → Token) (l : Lexer) : Option Lexer := do
  let l ← l.markKey?
  let c := l.cursor.skip
  let name := c.rest.takeWhile isWord
  let c := c.skipN name.length
  let ends := c.endsWord 0 || c.has 0 fun ch => ['?', ':', ',', ']', '}', '%', '@', '`'].contains ch
  if name.isEmpty || !ends then none
  return { l.push (build name) with cursor := c, keyAllowed := false }

def isUriChar (verbatim : Bool) (c : Char) : Bool :=
  isWord c || [';', '/', '?', ':', '@', '&', '=', '+', '$', '.', '%', '!', '~', '*', '\'', '(',
    ')'].contains c || (verbatim && (c = ',' || c = '[' || c = ']'))

/-- The characters of a part of a tag. Characters written by the numbers of their bytes are not
put together: no tag that means anything has any. -/
def uri? (verbatim : Bool) (c : Cursor) : Option (List Char × Cursor) :=
  let text := c.rest.takeWhile (isUriChar verbatim)
  let escapesOk := (List.range text.length).all fun i =>
    text[i]? != some '%' || ((text.drop (i + 1)).take 2).countP (fun d =>
      (Json.Reader.hexValue? d).isSome) == 2
  if escapesOk then some (text, c.skipN text.length) else none

/-- A tag in angle brackets, after a handle, or by itself. -/
def tagText? (c : Cursor) : Option (List Char × List Char × Cursor) := do
  if c.has 1 (· == '<') then
    let (uri, c) ← uri? true (c.skipN 2)
    if uri.isEmpty || !c.has 0 (· == '>') then none
    return ([], uri, c.skip)
  else
    let word := c.skip.rest.takeWhile isWord
    let after := c.skip.skipN word.length
    if after.has 0 (· == '!') then
      let (suffix, c) ← uri? false after.skip
      if suffix.isEmpty then none
      return ('!' :: (word ++ ['!']), suffix, c)
    else
      let (suffix, c) ← uri? false c.skip
      return if suffix.isEmpty then ([], ['!'], c) else (['!'], suffix, c)

def tag? (l : Lexer) : Option Lexer := do
  let l ← l.markKey?
  let (handle, suffix, c) ← tagText? l.cursor
  if !c.endsWord 0 && !(l.inFlow && c.has 0 (· == ',')) then none
  return { l.push (.tag handle suffix) with cursor := c, keyAllowed := false }

/-! ## Directives -/

def versionNumber? (c : Cursor) : Option (Nat × Cursor) :=
  let digits := c.rest.takeWhile Char.isDigit
  if digits.isEmpty || 9 < digits.length then none
  else some (Decimal.ofDigits digits, c.skipN digits.length)

/-- The directive at the cursor. -/
def directiveText? (c : Cursor) : Option (Token × Cursor) := do
  let c := c.skip
  let name := c.rest.takeWhile isWord
  let c := c.skipN name.length
  if !c.endsWord 0 then none
  let c := c.skipWhile isGap
  if name = ['Y', 'A', 'M', 'L'] then
    let (major, c) ← versionNumber? c
    if !c.has 0 (· == '.') then none
    let (minor, c) ← versionNumber? c.skip
    return (.versionDirective major minor, c)
  else if name = ['T', 'A', 'G'] then
    if !c.has 0 (· == '!') then none
    let word := c.skip.rest.takeWhile isWord
    let after := c.skip.skipN word.length
    let closed := after.has 0 (· == '!')
    if !closed && !word.isEmpty then none
    let handle := '!' :: (word ++ if closed then ['!'] else [])
    let c := if closed then after.skip else after
    if !c.has 0 isGap then none
    let (start, c) ← uri? true (c.skipWhile isGap)
    if start.isEmpty || !c.endsWord 0 then none
    return (.tagDirective handle start, c)
  else none

def directive? (l : Lexer) : Option Lexer := do
  let l ← (l.closeTo (-1)).dropKey?
  let (t, c) ← directiveText? l.cursor
  let c := c.skipWhile isGap
  let c := if c.has 0 (· == '#') then c.skipWhile fun ch => !isBreak ch else c
  if !c.atLineEnd then none
  return { l.push t with cursor := c.skipBreak, keyAllowed := false }

/-! ## Scalars -/

def quotedScalar? (single : Bool) (l : Lexer) : Option Lexer := do
  let l ← l.markKey?
  let (text, c) ← quoted? single (l.cursor.rest.length + 1) [] l.cursor.skip
  return { l.push (.scalar text .quoted) with cursor := c, keyAllowed := false }

def blockScalar? (literal : Bool) (l : Lexer) : Option Lexer := do
  let l ← l.dropKey?
  let (text, c) ← block? literal l.indent l.cursor.skip
  return { l.push (.scalar text (if literal then .literal else .quoted)) with
    cursor := c, keyAllowed := true }

def plainScalar? (l : Lexer) : Option Lexer := do
  let l ← l.markKey?
  let (text, broken, c) ←
    plain? l.inFlow (l.indent + 1).toNat (l.cursor.rest.length + 1) [] .empty l.cursor
  return { l.push (.scalar text .plain) with cursor := c, keyAllowed := broken }

/-- The characters that a plain scalar cannot start with. -/
def isMark (c : Char) : Bool :=
  isFlowMark c || ['-', '?', ':', '#', '&', '*', '!', '|', '>', '\'', '"', '%', '@', '`'].contains c

def startsPlain (l : Lexer) : Bool :=
  let c := l.cursor
  !(c.endsWord 0 || c.has 0 isMark)
    || (c.has 0 (· == '-') && !c.has 1 isGap)
    || (!l.inFlow && c.has 0 (fun ch => ch = '?' || ch = ':') && !c.endsWord 1)

/-- The next token at the cursor, which is neither a blank nor the end of the text. -/
def token? (l : Lexer) : Option Lexer := do
  let c := l.cursor
  let ch ← c.peek?
  if c.column = 0 && ch = '%' then l.directive?
  else if c.atMark '-' then l.documentMark? .documentStart
  else if c.atMark '.' then l.documentMark? .documentEnd
  else if ch = '[' then l.flowStart? .flowSequenceStart
  else if ch = '{' then l.flowStart? .flowMappingStart
  else if ch = ']' then l.flowEnd? .flowSequenceEnd
  else if ch = '}' then l.flowEnd? .flowMappingEnd
  else if ch = ',' then l.flowEntry?
  else if ch = '-' && c.endsWord 1 then l.blockEntry?
  else if ch = '?' && (l.inFlow || c.endsWord 1) then l.key?
  else if ch = ':' && (l.inFlow || c.endsWord 1) then l.value?
  else if ch = '*' then l.name? .alias
  else if ch = '&' then l.name? .anchor
  else if ch = '!' then l.tag?
  else if ch = '|' && !l.inFlow then l.blockScalar? true
  else if ch = '>' && !l.inFlow then l.blockScalar? false
  else if ch = '\'' then l.quotedScalar? true
  else if ch = '"' then l.quotedScalar? false
  else if l.startsPlain then l.plainScalar?
  else none

/-- Reads tokens up to the end of the text. -/
def run? : Nat → Lexer → Option Lexer
  | 0, _ => none
  | fuel + 1, l =>
    let l := l.skipBlanks (l.cursor.rest.length + 1)
    let l := l.closeTo l.cursor.column
    if l.cursor.atEnd then (l.closeTo (-1)).dropKey? else l.token?.bind (run? fuel)

end Lexer

/-- The tokens of a text. -/
def Token.ofText? (cs : List Char) : Option (List Token) :=
  let cs := match cs with
    | '\ufeff' :: rest => rest
    | _ => cs
  if cs.all isAllowed then
    ((Lexer.ofText cs).run? (cs.length + 1)).map fun l => l.tokens.toList
  else none

end Ensemble.Yaml
