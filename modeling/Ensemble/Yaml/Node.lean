import Ensemble.Yaml.Token

/-!
# YAML nodes

What a YAML text says: scalars, sequences and mappings, with their tags. A name that stands for an
anchored node is replaced by that node; within the node itself it is `unreadable`. There may be one
document only. The number of tokens bounds the nodes, so the fuel never runs out.
-/

namespace Ensemble.Yaml

inductive Node
  | scalar (text : String) (style : Style) (tag : Option String)
  | sequence (tag : Option String) (items : List Node)
  | mapping (tag : Option String) (entries : List (Node × Node))
  | unreadable
deriving Repr, Inhabited

/-- The plain scalar of a place where nothing is written. -/
def Node.empty : Node := .scalar "" .plain none

namespace Node

/-- The tokens to come, the handles of tags, and the anchored nodes: the latest number of each
name, and the nodes that have been read to their end. -/
structure Parser where
  tokens : List Token
  handles : List (List Char × List Char)
  names : List (List Char × Nat)
  nodes : List (Nat × Node)
  count : Nat

abbrev Parse := StateT Parser Option

/-- The next token, without taking it. -/
def peek : Parse (Option Token) := return (← get).tokens.head?

def drop : Parse Unit := modify fun p => { p with tokens := p.tokens.tail }

/-- Takes a token if it is the next one. -/
def accept (t : Token) : Parse Bool := do
  if (← peek) == some t then
    drop
    return true
  else return false

def expect (t : Token) : Parse Unit := do
  if !(← accept t) then failure

/-- Whether the next token is one of some. -/
def at? (ts : List Token) : Parse Bool := do
  match ← peek with
  | some t => return ts.contains t
  | none => return false

/-! ## Properties -/

structure Properties where
  anchor : Option (List Char)
  tag : Option (List Char × List Char)

/-- The anchor and the tag before a node, in either order. -/
def properties : Parse Properties := do
  match ← peek with
  | some (.anchor name) =>
    drop
    match ← peek with
    | some (.tag handle suffix) =>
      drop
      return { anchor := some name, tag := some (handle, suffix) }
    | _ => return { anchor := some name, tag := none }
  | some (.tag handle suffix) =>
    drop
    match ← peek with
    | some (.anchor name) =>
      drop
      return { anchor := some name, tag := some (handle, suffix) }
    | _ => return { anchor := none, tag := some (handle, suffix) }
  | _ => return { anchor := none, tag := none }

/-- A tag with its handle spelled out. -/
def fullTag (tag : Option (List Char × List Char)) : Parse (Option String) := do
  match tag with
  | none => return none
  | some ([], suffix) => return some (String.ofList suffix)
  | some (handle, suffix) =>
    match (← get).handles.lookup handle with
    | some start => return some (String.ofList (start ++ suffix))
    | none => failure

/-- Gives an anchored node its number. -/
def openAnchor (name : Option (List Char)) : Parse (Option Nat) := do
  match name with
  | none => return none
  | some name =>
    let p ← get
    set { p with names := (name, p.count) :: p.names, count := p.count + 1 }
    return some p.count

/-- Remembers an anchored node that has been read to its end. -/
def closeAnchor (number : Option Nat) (n : Node) : Parse Node := do
  if let some i := number then modify fun p => { p with nodes := (i, n) :: p.nodes }
  return n

/-- The node that a name stands for. -/
def anchored (name : List Char) : Parse Node := do
  let p ← get
  match p.names.lookup name with
  | none => failure
  | some i => return (p.nodes.lookup i).getD .unreadable

/-! ## Collections -/

mutual

/-- A node; `inBlock` tells whether a block may start here, `flat` whether a sequence may start
without further indentation. -/
def parse (inBlock flat : Bool) : Nat → Parse Node
  | 0 => failure
  | fuel + 1 => do
    if let some (.alias name) ← peek then
      drop
      return ← anchored name
    let props ← properties
    let tag ← fullTag props.tag
    let number ← openAnchor props.anchor
    closeAnchor number (← contents inBlock flat tag (props.anchor.isSome || tag.isSome) fuel)

/-- What follows the properties of a node. -/
def contents (inBlock flat : Bool) (tag : Option String) (mayBeEmpty : Bool) : Nat → Parse Node
  | 0 => failure
  | fuel + 1 => do
    match ← peek with
    | some (.scalar text style) =>
      drop
      return .scalar (String.ofList text) style (if tag = some "!" then none else tag)
    | some .flowSequenceStart =>
      drop
      return .sequence tag (← flowItems true fuel)
    | some .flowMappingStart =>
      drop
      return .mapping tag (← flowEntries true fuel)
    | some .blockEntry =>
      if flat then return .sequence tag (← flatItems fuel)
      else if mayBeEmpty then return .scalar "" .plain tag
      else failure
    | some .blockSequenceStart =>
      if inBlock then
        drop
        return .sequence tag (← blockItems fuel)
      else if mayBeEmpty then return .scalar "" .plain tag
      else failure
    | some .blockMappingStart =>
      if inBlock then
        drop
        return .mapping tag (← blockEntries fuel)
      else if mayBeEmpty then return .scalar "" .plain tag
      else failure
    | _ => if mayBeEmpty then return .scalar "" .plain tag else failure

/-- A node, or nothing if one of some tokens is next. -/
def parseUnless (ts : List Token) (inBlock flat : Bool) : Nat → Parse Node
  | 0 => failure
  | fuel + 1 => do
    if (← peek).isNone || (← at? ts) then return .empty else parse inBlock flat fuel

/-- The items of a block sequence. -/
def blockItems : Nat → Parse (List Node)
  | 0 => failure
  | fuel + 1 => do
    if ← accept .blockEntry then
      let item ← parseUnless [.blockEntry, .blockEnd] true false fuel
      return item :: (← blockItems fuel)
    else
      expect .blockEnd
      return []

/-- The items of a block sequence that is not indented. -/
def flatItems : Nat → Parse (List Node)
  | 0 => failure
  | fuel + 1 => do
    if ← accept .blockEntry then
      let item ← parseUnless [.blockEntry, .key, .value, .blockEnd] true false fuel
      return item :: (← flatItems fuel)
    else return []

/-- The entries of a block mapping. -/
def blockEntries : Nat → Parse (List (Node × Node))
  | 0 => failure
  | fuel + 1 => do
    if ← accept .key then
      let key ← parseUnless [.key, .value, .blockEnd] true true fuel
      let value ← if ← accept .value then parseUnless [.key, .value, .blockEnd] true true fuel
        else pure .empty
      return (key, value) :: (← blockEntries fuel)
    else
      expect .blockEnd
      return []

/-- The items of a flow sequence. -/
def flowItems (isFirst : Bool) : Nat → Parse (List Node)
  | 0 => failure
  | fuel + 1 => do
    if ← accept .flowSequenceEnd then return []
    if !isFirst then expect .flowEntry
    if ← accept .key then
      let entry ← flowPair fuel
      return .mapping none [entry] :: (← flowItems false fuel)
    else if ← accept .flowSequenceEnd then return []
    else
      let item ← parse false false fuel
      return item :: (← flowItems false fuel)

/-- The only entry of a mapping that is an item of a flow sequence. -/
def flowPair : Nat → Parse (Node × Node)
  | 0 => failure
  | fuel + 1 => do
    let stops : List Token := [.value, .flowEntry, .flowSequenceEnd]
    let key ← if ← at? stops then
        drop
        pure .empty
      else parse false false fuel
    let value ← if ← accept .value then
        parseUnless [.flowEntry, .flowSequenceEnd] false false fuel
      else pure .empty
    return (key, value)

/-- The entries of a flow mapping. -/
def flowEntries (isFirst : Bool) : Nat → Parse (List (Node × Node))
  | 0 => failure
  | fuel + 1 => do
    if ← accept .flowMappingEnd then return []
    if !isFirst then expect .flowEntry
    if ← accept .key then
      let key ← parseUnless [.value, .flowEntry, .flowMappingEnd] false false fuel
      let value ← if ← accept .value then
          parseUnless [.flowEntry, .flowMappingEnd] false false fuel
        else pure .empty
      return (key, value) :: (← flowEntries false fuel)
    else if ← accept .flowMappingEnd then return []
    else
      let key ← parse false false fuel
      return (key, .empty) :: (← flowEntries false fuel)

end

/-! ## Documents -/

/-- The handles that need no directive. -/
def defaultHandles : List (List Char × List Char) :=
  [(['!'], ['!']), (['!', '!'], "tag:yaml.org,2002:".toList)]

/-- The directives before a document: at most one version, which must be a known one, and no
handle twice. -/
def directives : Nat → Bool → List (List Char × List Char) → Parse (List (List Char × List Char))
  | 0, _, _ => failure
  | fuel + 1, versioned, handles => do
    match ← peek with
    | some (.versionDirective major minor) =>
      if versioned || major ≠ 1 || (minor ≠ 1 && minor ≠ 2) then failure
      drop
      directives fuel true handles
    | some (.tagDirective handle start) =>
      if (handles.lookup handle).isSome then failure
      drop
      directives fuel versioned (handles ++ [(handle, start)])
    | _ => return handles

def isDirective : Token → Bool
  | .versionDirective .. => true
  | .tagDirective .. => true
  | _ => false

/-- The only document of a text. -/
def document (fuel : Nat) : Parse Node := do
  let first ← peek
  if first.isNone then return .empty
  if first.any isDirective || first == some .documentStart then
    let handles ← directives fuel false []
    modify fun p =>
      { p with handles := handles ++ defaultHandles.filter fun d => (handles.lookup d.1).isNone }
    expect .documentStart
    let next ← peek
    if next.all fun t => isDirective t || t == .documentStart || t == .documentEnd then
      return .empty
    else parse true false fuel
  else parse true false fuel

def only (fuel : Nat) : Parse Node := do
  let n ← document fuel
  modify fun p => { p with tokens := p.tokens.dropWhile (· == .documentEnd) }
  if (← peek).isSome then failure
  return n

/-- The document of a text. -/
def ofText? (text : String) : Option Node := do
  let tokens ← Token.ofText? text.toList
  let start : Parser :=
    { tokens, handles := defaultHandles, names := [], nodes := [], count := 0 }
  return (← (only (3 * tokens.length + 10)).run start).1

end Node

end Ensemble.Yaml
