import Ensemble.Yaml.Scalar

/-!
# YAML nodes as sources

Where a text is wanted, any scalar will do as it is written. Where nothing is written, a list or a
record is empty. Collections may be nested 128 deep; deeper ones are unreadable.
-/

namespace Ensemble.Yaml.Node

mutual

/-- Makes collections unreadable that are nested more deeply than `level`. -/
def limit : Nat → Node → Node
  | _, .scalar text style tag => .scalar text style tag
  | 0, .sequence .. => .unreadable
  | 0, .mapping .. => .unreadable
  | level + 1, .sequence tag items => .sequence tag (limitItems level items)
  | level + 1, .mapping tag entries => .mapping tag (limitEntries level entries)
  | _, .unreadable => .unreadable

def limitItems (level : Nat) : List Node → List Node
  | [] => []
  | n :: rest => limit level n :: limitItems level rest

def limitEntries (level : Nat) : List (Node × Node) → List (Node × Node)
  | [] => []
  | (k, n) :: rest => (limit level k, limit level n) :: limitEntries level rest

end

def text? : Node → Option String
  | .scalar text _ _ => some text
  | _ => none

/-- Whether a node is a scalar at a place where nothing is written. -/
def isNothing : Node → Bool
  | .scalar text style _ => text.isEmpty && style = .plain
  | _ => false

mutual

/-- The data of a node. Tags that name variants have no place in it. -/
def content? : Node → Option Content
  | .scalar text style tag => Scalar.meaning? text style tag
  | .sequence tag items =>
    if (Scalar.variant? tag).isSome then none else (contentItems? items).map .list
  | .mapping tag entries =>
    if (Scalar.variant? tag).isSome then none else (contentEntries? entries).map .record
  | .unreadable => none

def contentItems? : List Node → Option (List Content)
  | [] => some []
  | n :: rest => do
    let c ← n.content?
    let rest ← contentItems? rest
    return c :: rest

def contentEntries? : List (Node × Node) → Option (List (Content × Content))
  | [] => some []
  | (key, n) :: rest => do
    let key ← key.content?
    let c ← n.content?
    let rest ← contentEntries? rest
    return (key, c) :: rest

end

mutual

/-- The free value of a node; keys are texts as they are written. -/
def free? : Node → Option Json
  | .scalar text style tag => do (← Scalar.meaning? text style tag).free?
  | .sequence tag items =>
    if (Scalar.variant? tag).isSome then none else (freeItems? items).map .array
  | .mapping tag entries =>
    if (Scalar.variant? tag).isSome then none
    else (freeEntries? entries).map fun fields => .object (Table.ofList fields)
  | .unreadable => none

def freeItems? : List Node → Option (List Json)
  | [] => some []
  | n :: rest => do
    let v ← n.free?
    let rest ← freeItems? rest
    return v :: rest

def freeEntries? : List (Node × Node) → Option (List (String × Json))
  | [] => some []
  | (key, n) :: rest => do
    let key ← key.text?
    let v ← n.free?
    let rest ← freeEntries? rest
    return (key, v) :: rest

end

/-- The tag of a variant and the rest of the node. -/
def untag? : Node → Option (Decode.Key × Content)
  | .sequence tag (name :: items) => do
    if (Scalar.variant? tag).isSome then none
    let name ← name.text?
    let items ← contentItems? items
    return (.name name, .list items)
  | .mapping tag entries => do
    if (Scalar.variant? tag).isSome then none
    let keyed ← entries.mapM fun (entry : Node × Node) => do
      let key ← entry.1.content?
      return (key, entry.2)
    let fields ← (keyed.filter fun entry => !entry.1.isTagKey).mapM fun entry => do
      let c ← entry.2.content?
      return (entry.1, c)
    match keyed.filter fun entry => entry.1.isTagKey with
    | [(_, tag)] => return (.name (← tag.text?), .record fields)
    | _ => none
  | _ => none

instance : Decode.Source Node where
  text? := text?
  flag?
    | .scalar text style tag =>
      if Scalar.isTyped Scalar.boolTag style tag then Scalar.bool? text else none
    | _ => none
  count?
    | .scalar text style tag =>
      if Scalar.isTyped Scalar.intTag style tag then Scalar.count? text else none
    | _ => none
  optional?
    | .scalar text .plain tag =>
      if tag = some Scalar.nullTag then if Scalar.isNull text then some none else none
      else if tag.isNone && (text.isEmpty || Scalar.isNull text) then some none
      else some (some (.scalar text .plain tag))
    | n => some (some n)
  items?
    | .sequence _ items => some items
    | n => if n.isNothing then some [] else none
  fields?
    | .mapping _ entries =>
      (entries.mapM fun (entry : Node × Node) =>
        entry.1.text?.map fun key => (Decode.Key.name key, entry.2)).map .named
    | n => if n.isNothing then some (.named []) else none
  choice?
    | .scalar text style tag =>
      match Scalar.variant? tag with
      | some name =>
        if style = .plain && (text.isEmpty || Scalar.isNull text) then some name else none
      | none => some text
    | _ => none
  free? := free?
  untag? := untag?

/-- The document of a text, as a source. -/
def read? (text : String) : Option Node := (ofText? text).map (limit 128)

end Ensemble.Yaml.Node
