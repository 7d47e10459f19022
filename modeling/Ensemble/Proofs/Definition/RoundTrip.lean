import Ensemble.Definition.Loading
import Ensemble.Proofs.Compile.Steps
import Ensemble.Proofs.Trace.Wire

/-!
# Definitions that are stored and loaded

A definition has many spellings, as kinds and calls go by several names and
much may be left out. It is written in one of them, and loading what was
written gives the definition back (`MasterAgent.read?_toJson`): record by
record, where the steps of a node are read to the depth of the data in which
they were set aside.

The options of tools are free values. Those of a loaded definition are
canonical and have no numbers but those of the text
(`MasterAgent.options_of_load`), so without doubles they are exact, and a
definition that was loaded can be stored and loaded again.
-/

namespace Ensemble

open Decode

/-! ## Depth -/

namespace Content

theorem depth_le_of_mem {c : Content} {items : List Content} (h : c ∈ items) :
    c.depth ≤ depthItems items := by
  induction items with
  | nil => cases h
  | cons d rest ih =>
      rw [depthItems]
      rcases List.mem_cons.mp h with rfl | h
      · exact Nat.le_max_left _ _
      · exact Nat.le_trans (ih h) (Nat.le_max_right _ _)

end Content

/-! ## Nodes -/

namespace Node

theorem toItems_eq (nodes : List Node) : toItems nodes = nodes.map toJson := by
  induction nodes with
  | nil => rfl
  | cons n rest ih => rw [toItems, ih, List.map_cons]

/-- The fields of a node behind its tag. -/
def fields : Node → List (String × Json)
  | .agentCall agent input =>
    ("agent", .string agent) :: match input with
      | none => []
      | some text => [("input", .string text)]
  | .sequence steps => [("steps", .array (toItems steps))]
  | .parallel steps => [("steps", .array (toItems steps))]

def kind : Node → String
  | .agentCall .. => "agentCall"
  | .sequence _ => "sequence"
  | .parallel _ => "parallel"

def variant : Node → Nat
  | .agentCall .. => 0
  | .sequence _ => 1
  | .parallel _ => 2

def children : Node → List Node
  | .agentCall .. => []
  | .sequence steps => steps
  | .parallel steps => steps

theorem toJson_eq (n : Node) : n.toJson = .object (("type", .string n.kind) :: n.fields) := by
  cases n with
  | agentCall agent input => cases input <;> rfl
  | _ => rfl

theorem variant_of_kind (n : Node) :
    variants.findIdx? (·.contains n.kind) = some n.variant := by
  cases n <;> rfl

theorem type_not_mem_fields (n : Node) : "type" ∉ n.fields.map Prod.fst := by
  cases n with
  | agentCall agent input => cases input <;> simp [fields]
  | _ => simp [fields]

/-- The steps of a node are nested more deeply than the node. -/
theorem depth_lt_of_mem {m n : Node} (h : m ∈ n.children) :
    (Content.ofJson m.toJson).depth < (Content.ofJson (.object n.fields)).depth := by
  have hsteps (steps : List Node) (h : m ∈ steps) : (Content.ofJson m.toJson).depth
      ≤ Content.depthItems (Content.ofItems (toItems steps)) := by
    refine Content.depth_le_of_mem ?_
    rw [Content.ofItems_eq, toItems_eq, List.map_map]
    exact List.mem_map_of_mem h
  cases n with
  | agentCall agent input => cases h
  | sequence steps =>
      have hle := hsteps steps h
      simp only [fields, Content.ofJson, Content.ofFields, Content.depth, Content.depthFields]
      omega
  | parallel steps =>
      have hle := hsteps steps h
      simp only [fields, Content.ofJson, Content.ofFields, Content.depth, Content.depthFields]
      omega

/-- A tag does not count. -/
theorem depth_toJson (n : Node) :
    (Content.ofJson n.toJson).depth = (Content.ofJson (.object n.fields)).depth := by
  simp [toJson_eq, Content.ofJson, Content.ofFields, Content.depth, Content.depthFields]

/-- A node is read from its fields, if its steps are read. -/
theorem ofBody?_fields {n : Node} {step : Content → Option Node}
    (h : ∀ m ∈ n.children, step (.ofJson m.toJson) = some m) :
    ofBody? step n.variant (.ofJson (.object n.fields)) = some n := by
  have hsteps (steps : List Node) (h : ∀ m ∈ steps, step (.ofJson m.toJson) = some m) :
      list? step (Content.ofJson (.array (toItems steps))) = some steps := by
    rw [toItems_eq]
    exact list?_array h
  cases n with
  | agentCall agent input =>
      have htext {text : String} :
          option? Source.text? (Content.ofJson (.string text)) = some (some text) := rfl
      cases input <;> simp [ofBody?, variant, fields, List.lookup_cons, htext]
  | sequence steps => simp [ofBody?, variant, fields, hsteps steps h]
  | parallel steps => simp [ofBody?, variant, fields, hsteps steps h]

theorem tagged?_toJson (n : Node) : tagged? variants (Content.ofJson n.toJson)
    = some (n.variant, .ofJson (.object n.fields)) := by
  rw [toJson_eq, tagged?_object _ _ n.type_not_mem_fields, variant_of_kind, Option.map_some]

theorem readContent?_succ {n : Node} {level : Nat}
    (h : ∀ m ∈ n.children, readContent? level (.ofJson m.toJson) = some m) :
    readContent? (level + 1) (.ofJson n.toJson) = some n := by
  rw [readContent?, tagged?_toJson]
  exact ofBody?_fields h

/-- A node is read to any depth that it has at most. -/
theorem readContent?_toJson {n : Node} {level : Nat}
    (h : (Content.ofJson n.toJson).depth ≤ level) :
    readContent? level (.ofJson n.toJson) = some n := by
  rw [depth_toJson] at h
  induction level generalizing n with
  | zero => exact absurd h (by simp [Content.ofJson, Content.depth])
  | succ level ih =>
      refine readContent?_succ fun m hm => ih ?_
      have hlt := depth_lt_of_mem hm
      rw [depth_toJson] at hlt
      omega

theorem read?_toJson (n : Node) : read? (Document.ofJson n.toJson) = some n := by
  have htagged : tagged? variants (Document.ofJson n.toJson)
      = some (n.variant, .ofJson (.object n.fields)) := by
    rw [toJson_eq, tagged?_document _ _ n.type_not_mem_fields, variant_of_kind, Option.map_some]
  rw [read?, htagged]
  exact ofBody?_fields fun m hm => readContent?_toJson (Nat.le_of_lt (depth_lt_of_mem hm))

end Node

/-! ## Records -/

@[simp] theorem text?_document (s : String) :
    Source.text? (Document.ofJson (.string s)) = some s := rfl

@[simp] theorem flag?_document (b : Bool) :
    Source.flag? (Document.ofJson (.bool b)) = some b := rfl

@[simp] theorem option?_document (s : Option String) :
    option? Source.text? (Document.ofJson (.ofOption .string s)) = some s := by
  cases s <;> rfl

theorem InputKind.read?_name (kind : InputKind) :
    InputKind.read? (Document.ofJson (.string kind.name)) = some kind := by
  cases kind <;> rfl

theorem InputDeclaration.read?_toJson (d : InputDeclaration) :
    InputDeclaration.read? (Document.ofJson d.toJson) = some d := by
  simp [InputDeclaration.read?, InputDeclaration.toJson, List.lookup_cons, InputKind.read?_name]

theorem ToolBinding.read?_toJson {b : ToolBinding} (h : b.options.canonical = b.options) :
    ToolBinding.read? (Document.ofJson b.toJson) = some b := by
  have hoptions : Source.free? (Document.ofJson b.options) = some b.options := by
    have hfree := Document.free?_ofJson b.options
    rwa [h] at hfree
  simp [ToolBinding.read?, ToolBinding.toJson, List.lookup_cons, hoptions]

/-- The free values in a definition. -/
def AgentConfig.options (a : AgentConfig) : List Json := a.tools.map ToolBinding.options

def MasterAgent.options (m : MasterAgent) : List Json := m.agents.flatMap AgentConfig.options

theorem AgentConfig.read?_toJson {a : AgentConfig} (h : ∀ v ∈ a.options, v.canonical = v) :
    AgentConfig.read? (Document.ofJson a.toJson) = some a := by
  have htools : list? ToolBinding.read? (Document.ofJson (.array (a.tools.map ToolBinding.toJson)))
      = some a.tools :=
    list?_document fun b hb => ToolBinding.read?_toJson (h _ (List.mem_map_of_mem hb))
  simp [AgentConfig.read?, AgentConfig.toJson, List.lookup_cons, htools]

theorem FlowDefinition.read?_toJson (f : FlowDefinition) :
    FlowDefinition.read? (Document.ofJson f.toJson) = some f := by
  simp [FlowDefinition.read?, FlowDefinition.toJson, List.lookup_cons, Node.read?_toJson]

/-- A definition is read as it was written. -/
theorem MasterAgent.read?_toJson {m : MasterAgent} (h : ∀ v ∈ m.options, v.canonical = v) :
    MasterAgent.read? (Document.ofJson m.toJson) = some m := by
  have hinputs : list? InputDeclaration.read?
      (Document.ofJson (.array (m.inputs.map InputDeclaration.toJson))) = some m.inputs :=
    list?_document fun d _ => d.read?_toJson
  have hagents : list? AgentConfig.read?
      (Document.ofJson (.array (m.agents.map AgentConfig.toJson))) = some m.agents :=
    list?_document fun a ha => AgentConfig.read?_toJson fun v hv =>
      h v (List.mem_flatMap.mpr ⟨a, ha, hv⟩)
  have hflows : list? FlowDefinition.read?
      (Document.ofJson (.array (m.flows.map FlowDefinition.toJson))) = some m.flows :=
    list?_document fun f _ => f.read?_toJson
  simp [MasterAgent.read?, MasterAgent.toJson, List.lookup_cons, hinputs, hagents, hflows]

/-! ## All numbers of a definition -/

theorem Json.isWhole_ofOption (s : Option String) : (Json.ofOption .string s).IsWhole := by
  cases s <;> trivial

theorem Node.isWhole (n : Node) : n.toJson.IsWhole := by
  induction n with
  | agentCall agent input => cases input <;> exact ⟨trivial, trivial, by trivial⟩
  | sequence steps ih =>
      refine ⟨trivial, ?_, trivial⟩
      rw [toItems_eq]
      exact Json.itemsWhole_map ih
  | parallel steps ih =>
      refine ⟨trivial, ?_, trivial⟩
      rw [toItems_eq]
      exact Json.itemsWhole_map ih

theorem AgentConfig.isWhole {a : AgentConfig} (h : ∀ v ∈ a.options, v.IsWhole) :
    a.toJson.IsWhole := by
  have htools : (Json.array (a.tools.map ToolBinding.toJson)).IsWhole :=
    Json.itemsWhole_map fun b hb => ⟨trivial, h _ (List.mem_map_of_mem hb), trivial⟩
  exact ⟨trivial, trivial, trivial, htools, trivial⟩

theorem MasterAgent.isWhole {m : MasterAgent} (h : ∀ v ∈ m.options, v.IsWhole) :
    m.toJson.IsWhole := by
  have hinputs : (Json.array (m.inputs.map InputDeclaration.toJson)).IsWhole :=
    Json.itemsWhole_map fun _ _ => ⟨trivial, trivial, trivial, trivial, trivial⟩
  have hagents : (Json.array (m.agents.map AgentConfig.toJson)).IsWhole :=
    Json.itemsWhole_map fun a ha => AgentConfig.isWhole fun v hv =>
      h v (List.mem_flatMap.mpr ⟨a, ha, hv⟩)
  have hflows : (Json.array (m.flows.map FlowDefinition.toJson)).IsWhole :=
    Json.itemsWhole_map fun f _ => ⟨trivial, Json.isWhole_ofOption f.code, f.flow.isWhole, trivial⟩
  exact ⟨trivial, trivial, trivial, Json.isWhole_ofOption m.locale, hinputs, hagents, hflows,
    trivial, trivial⟩

/-! ## What is loaded -/

theorem Document.Gives.mono {node d : Document} {v : Json} (h : node.Gives v)
    (hsub : node.numbers ⊆ d.numbers) : d.Gives v :=
  ⟨h.canonical, List.Subset.trans h.numbers hsub⟩

theorem ToolBinding.gives_of_read? {d : Document} {b : ToolBinding}
    (h : ToolBinding.read? d = some b) : d.Gives b.options := by
  simp only [ToolBinding.read?, Option.bind_eq_bind, Option.bind_eq_some_iff, Option.pure_def,
    Option.some_inj] at h
  obtain ⟨fields, hfields, name, -, options, hoptions, rfl⟩ := h
  rcases Fields.withDefault?_eq_some hoptions with rfl | ⟨node, hnode, hfree⟩
  · exact ⟨rfl, List.nil_subset _⟩
  · exact (Document.gives_of_free? hfree).mono (numbers_of_record? hfields hnode)

theorem AgentConfig.gives_of_read? {d : Document} {a : AgentConfig}
    (h : AgentConfig.read? d = some a) {v : Json} (hv : v ∈ a.options) : d.Gives v := by
  simp only [AgentConfig.read?, Option.bind_eq_bind, Option.bind_eq_some_iff, Option.pure_def,
    Option.some_inj] at h
  obtain ⟨fields, hfields, name, -, model, -, system, -, tools, htools, rfl⟩ := h
  obtain ⟨b, hb, rfl⟩ := List.mem_map.mp hv
  rcases Fields.withDefault?_eq_some htools with rfl | ⟨node, hnode, hlist⟩
  · cases hb
  · obtain ⟨item, hitem, hread⟩ := exists_of_list? hlist hb
    exact (ToolBinding.gives_of_read? hread).mono
      (List.Subset.trans hitem (numbers_of_record? hfields hnode))

/-- The options of tools are read from parts of the document. -/
theorem MasterAgent.gives_of_read? {d : Document} {m : MasterAgent}
    (h : MasterAgent.read? d = some m) {v : Json} (hv : v ∈ m.options) : d.Gives v := by
  simp only [MasterAgent.read?, Option.bind_eq_bind, Option.bind_eq_some_iff, Option.pure_def,
    Option.some_inj] at h
  obtain ⟨fields, hfields, id, -, displayName, -, published, -, locale, -, inputs, -, agents,
    hagents, flows, -, resultFormat, -, rfl⟩ := h
  obtain ⟨a, ha, hv⟩ := List.mem_flatMap.mp hv
  obtain ⟨node, hnode, hlist⟩ := Fields.required?_eq_some hagents
  obtain ⟨item, hitem, hread⟩ := exists_of_list? hlist ha
  exact (AgentConfig.gives_of_read? hread hv).mono
    (List.Subset.trans hitem (numbers_of_record? hfields hnode))

namespace MasterAgent

theorem load_json_eq_ok_iff {text : String} {m : MasterAgent} :
    load .json text = .ok m ↔ ∃ d, Document.parse? text.toList = some d ∧ read? d = some m := by
  rw [load]
  have hbind : ofText? .json text = some m ↔
      ∃ d, Document.parse? text.toList = some d ∧ read? d = some m := Option.bind_eq_some_iff
  rw [← hbind]
  cases ofText? .json text <;> simp

/-- The options of a loaded definition are exact, unless they have doubles. -/
theorem options_of_load {text : String} {m : MasterAgent} (h : load .json text = .ok m) {v : Json}
    (hv : v ∈ m.options) (hwhole : v.NoDoubles) : v.Exact := by
  obtain ⟨d, hparse, hread⟩ := load_json_eq_ok_iff.mp h
  obtain ⟨hcanonical, hnumbers⟩ := gives_of_read? hread hv
  refine ⟨hcanonical, Json.isWhole_of_numbers fun n hn => ?_⟩
  refine Number.isWhole_of_inRange (Document.parse?_inRange hparse n (hnumbers hn)) ?_
  exact fun bits heq => hwhole bits (heq ▸ hn)

theorem load_render {m : MasterAgent} (h : ∀ v ∈ m.options, v.Exact)
    (hdepth : m.toJson.depth ≤ 127) : load .json m.toJson.render = .ok m := by
  have hparse : Document.parse? m.toJson.render.toList = some (.ofJson m.toJson) := by
    have htext := Json.parse?_compact (isWhole fun v hv => (h v hv).whole) hdepth (Or.inl rfl)
    rwa [List.append_nil, ← String.toList_ofList (l := m.toJson.compact)] at htext
  exact load_json_eq_ok_iff.mpr ⟨_, hparse, read?_toJson fun v hv => (h v hv).canonical⟩

/-- **Definitions can be stored.** The text of a definition is loaded as that
definition, if the options of its tools are values without doubles. So
whatever text a definition was loaded from, storing and loading it again
changes nothing. -/
theorem stored_definition_loads :
    (∀ m : MasterAgent, (∀ v ∈ m.options, v.Exact) → m.toJson.depth ≤ 127 →
      load .json m.toJson.render = .ok m) ∧
    (∀ (text : String) (m : MasterAgent), load .json text = .ok m →
      (∀ v ∈ m.options, v.NoDoubles) → m.toJson.depth ≤ 127 →
        load .json m.toJson.render = .ok m) := by
  refine ⟨fun m hexact hdepth => load_render hexact hdepth, fun text m hload hwhole hdepth => ?_⟩
  exact load_render (fun v hv => options_of_load hload hv (hwhole v hv)) hdepth

/-- A definition with nodes in a node, a tool with options, and whatever may be left out. -/
def nested : MasterAgent :=
  { id := "a", displayName := "", published := false, locale := none
    inputs := [{ name := "x", description := "", kind := .shortText, required := false }]
    agents := [{ name := "writer", model := "m", system := ""
                 tools := [{ name := "sum"
                             options := .object [("a", .array [.ofInt (-3), .null]),
                               ("b", .object [])] }] }]
    flows := [{ name := "f", code := some "\"é\n\""
                flow := .sequence [.agentCall "writer" none,
                  .parallel [.agentCall "writer" (some "\x7b\x7bx\x7d\x7d")]] }]
    resultFormat := "markdown" }

/-- The same definition in other words: records as lists, other names of a kind and a call, fields
in another order, and fields that are unknown or, within options, given twice. -/
def loose : Json :=
  .object [("unknown", .array [.ofNat 1]), ("id", .string "a"),
    ("inputs", .array [.object [("kind", .string "text"), ("name", .string "x")]]),
    ("flows", .array [.array [.string "f", .string "\"é\n\"",
      .object [("steps", .array [.object [("agent", .string "writer"), ("type", .string "step")],
        .object [("type", .string "parallel"), ("steps", .array [.array [.string "agentCall",
          .string "writer", .string "\x7b\x7bx\x7d\x7d"]])]]), ("type", .string "sequence")]]]),
    ("agents", .array [.array [.string "writer", .string "m", .string "", .array [.array
      [.string "sum", .object [("b", .null), ("a", .array [.ofInt (-3), .null]),
        ("b", .object [])]]]]])]

theorem load_loose : load .json loose.render = .ok nested := by
  have hwhole : loose.IsWhole := by
    simp [loose, Json.IsWhole, Json.FieldsWhole, Json.ItemsWhole, Json.ofNat, Json.ofInt,
      Number.IsWhole]
  have hparse : Document.parse? loose.render.toList = some (.ofJson loose) := by
    have htext := Json.parse?_compact hwhole (by decide) (Or.inl rfl)
    rwa [List.append_nil, ← String.toList_ofList (l := loose.compact)] at htext
  exact load_json_eq_ok_iff.mpr ⟨_, hparse, rfl⟩

/-- A definition is stored and loaded, as it is and as it was loaded from another text. -/
theorem stored_definition_loads_nested :
    (∀ v ∈ nested.options, v.Exact) ∧ nested.toJson.depth ≤ 127 ∧
      load .json nested.toJson.render = .ok nested ∧
      load .json loose.render = .ok nested ∧ (∀ v ∈ nested.options, v.NoDoubles) ∧
      load .json nested.toJson.render = .ok nested := by
  have hexact : ∀ v ∈ nested.options, v.Exact := by
    refine List.forall_mem_singleton.mpr ⟨rfl, ?_⟩
    simp [Json.IsWhole, Json.FieldsWhole, Json.ItemsWhole, Json.ofInt, Number.IsWhole]
  have hdoubles : ∀ v ∈ nested.options, v.NoDoubles := by
    refine List.forall_mem_singleton.mpr fun bits => ?_
    simp [Json.numbers, Json.numbersOfFields, Json.numbersOfItems, Json.ofInt]
  have hdepth : nested.toJson.depth ≤ 127 := by decide
  exact ⟨hexact, hdepth, stored_definition_loads.1 _ hexact hdepth, load_loose, hdoubles,
    stored_definition_loads.2 _ _ load_loose hdoubles hdepth⟩

end MasterAgent

end Ensemble
