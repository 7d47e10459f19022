import Ensemble.Proofs.Compile.Refusals
import Ensemble.Proofs.Definition.Selection

/-!
# What a flow is compiled to

The steps of a compiled tree are those of the places of its stored tree, in
the same order (`walk_compiled`), so the tree keeps its kinds, agents and
children, and steps are named by the path to them (`Mirrors`).
`compile_decided` puts this together with the reasons for which a flow is
refused.
-/

namespace Ensemble

namespace Compile

/-! ## Single steps -/

theorem name_compiled (s : Scope) (name : String) (n : Node) : (compiled s name n).name = name := by
  cases n using Node.casesOn <;> rfl

theorem label_compiled (s : Scope) (name : String) (n : Node) :
    (compiled s name n).label = label n := by
  cases n using Node.casesOn <;> rfl

theorem isCall_compiled (s : Scope) (name : String) (n : Node) :
    (compiled s name n).isCall = n.isCall := by
  cases n using Node.casesOn <;> rfl

/-- Children are named by their places and labels. -/
theorem name_of_getElem?_compiledAll {s : Scope} {path : String} {index i : Nat}
    {nodes : List Node} {t : Step} (h : (compiledAll s path index nodes)[i]? = some t) :
    t.name = s!"{path}/{index + i}:{t.label}" := by
  induction nodes generalizing index i with
  | nil => simp [compiledAll] at h
  | cons n rest ih =>
      rw [compiledAll] at h
      cases i with
      | zero =>
          obtain rfl := Option.some.inj h
          rw [name_compiled, label_compiled]
          rfl
      | succ i =>
          rw [ih (by simpa using h), Nat.add_right_comm]
          rfl

/-- The children of a step are named after it. -/
def NamesChildren (t : Step) : Prop :=
  ∀ (i : Nat) (c : Step), t.children[i]? = some c → c.name = s!"{t.name}/{i}:{c.label}"

theorem namesChildren_compiled (s : Scope) (name : String) (n : Node) :
    NamesChildren (compiled s name n) := by
  intro i c hc
  rw [name_compiled]
  cases n using Node.casesOn with
  | agentCall agent input => cases hc
  | sequence nodes =>
      have hname := name_of_getElem?_compiledAll hc
      rwa [Nat.zero_add] at hname
  | parallel nodes =>
      have hname := name_of_getElem?_compiledAll hc
      rwa [Nat.zero_add] at hname

/-! ## Whole trees -/

mutual

/-- The steps of a compiled tree are those that its places are compiled to. -/
theorem walk_compiled (s : Scope) (name : String) : ∀ n : Node,
    (compiled s name n).walk = (n.sites name).map fun site => compiled s site.1 site.2
  | .agentCall agent input => rfl
  | .sequence nodes => by
      rw [compiled, Step.walk, Node.sites, List.map_cons, compiled, walkAll_compiled]
  | .parallel nodes => by
      rw [compiled, Step.walk, Node.sites, List.map_cons, compiled, walkAll_compiled]

theorem walkAll_compiled (s : Scope) (path : String) (index : Nat) : ∀ nodes : List Node,
    Step.walkAll (compiledAll s path index nodes)
      = (Node.sitesAll path index nodes).map fun site => compiled s site.1 site.2
  | [] => rfl
  | n :: rest => by
      rw [compiledAll, Step.walkAll, Node.sitesAll, List.map_append, walk_compiled,
        walkAll_compiled]

end

mutual

theorem skeleton_compiled (s : Scope) (name : String) : ∀ n : Node,
    (compiled s name n).skeleton = n.skeleton
  | .agentCall agent input => rfl
  | .sequence nodes => by rw [compiled, Step.skeleton, Node.skeleton, skeletonAll_compiled]
  | .parallel nodes => by rw [compiled, Step.skeleton, Node.skeleton, skeletonAll_compiled]

theorem skeletonAll_compiled (s : Scope) (path : String) (index : Nat) : ∀ nodes : List Node,
    Step.skeletonAll (compiledAll s path index nodes) = Node.skeletonAll nodes
  | [] => rfl
  | n :: rest => by
      rw [compiledAll, Step.skeletonAll, Node.skeletonAll, skeleton_compiled,
        skeletonAll_compiled]

end

mutual

theorem depth_compiled (s : Scope) (name : String) : ∀ n : Node,
    (compiled s name n).depth = n.height
  | .agentCall agent input => rfl
  | .sequence nodes => by rw [compiled, Step.depth, Node.height, depthAll_compiled]
  | .parallel nodes => by rw [compiled, Step.depth, Node.height, depthAll_compiled]

theorem depthAll_compiled (s : Scope) (path : String) (index : Nat) : ∀ nodes : List Node,
    Step.depthAll (compiledAll s path index nodes) = Node.heightAll nodes
  | [] => rfl
  | n :: rest => by
      rw [compiledAll, Step.depthAll, Node.heightAll, depth_compiled, depthAll_compiled]

end

/-! ## Plans -/

/-- A plan has the tree of the flow that it is made from. -/
structure Mirrors (f : FlowDefinition) (plan : Plan) : Prop where
  name : plan.name = f.name ∧ plan.root.name = f.name
  skeleton : plan.root.skeleton = f.flow.skeleton
  /-- Steps are called as the places of the nodes are. -/
  names : plan.root.walk.map Step.name = (f.flow.sites f.name).map Prod.fst
  children : ∀ t ∈ plan.root.walk, NamesChildren t
  outline : plan.outline =
    { flow := f.name, steps := f.flow.walk.length, calls := f.flow.walk.countP Node.isCall
      depth := f.flow.height }

theorem mirrors_compiled (s : Scope) (f : FlowDefinition) :
    Mirrors f (Plan.ofRoot f.name (compiled s f.name f.flow)) where
  name := ⟨rfl, name_compiled ..⟩
  skeleton := skeleton_compiled ..
  names := by
    show (compiled s f.name f.flow).walk.map Step.name = _
    rw [walk_compiled, List.map_map]
    exact List.map_congr_left fun site _ => name_compiled ..
  children := by
    show ∀ t ∈ (compiled s f.name f.flow).walk, NamesChildren t
    rw [walk_compiled, List.forall_mem_map]
    exact fun site _ => namesChildren_compiled s site.1 site.2
  outline := by
    have hcall : (Step.isCall ∘ fun site : String × Node => compiled s site.1 site.2)
        = Node.isCall ∘ Prod.snd := funext fun site => isCall_compiled s site.1 site.2
    rw [Plan.ofRoot, walk_compiled, depth_compiled, ← Node.map_snd_sites f.name, List.length_map,
      List.length_map, List.countP_map, List.countP_map, hcall]

/-- A tree in which no node is refused: its agents are declared and no node
is empty. -/
def Sound (agents : List String) (n : Node) : Prop :=
  ∀ m ∈ n.walk, (∀ agent input, m = .agentCall agent input → agent ∈ agents) ∧ ¬m.IsEmptyNode

theorem sound_iff {agents : List String} {name : String} {n : Node} :
    Sound agents n ↔ (n.sites name).findSome? (offence? agents) = none := by
  rw [Sound, ← Node.map_snd_sites name, List.forall_mem_map, List.findSome?_eq_none_iff]
  refine forall₂_congr fun site _ => ?_
  rw [offence?_eq_none_iff]
  obtain ⟨name, m⟩ := site
  constructor
  · rintro ⟨hagent, hempty⟩ e (h | h | h)
    · exact h (hagent _ _ rfl)
    · exact hempty (.inl rfl)
    · exact hempty (.inr rfl)
  · intro h
    refine ⟨fun agent input heq => ?_, ?_⟩
    · by_contra hagent
      obtain rfl : m = .agentCall agent input := heq
      exact h _ (.unknownAgent hagent)
    · rintro (heq | heq)
      · obtain rfl : m = .sequence [] := heq
        exact h _ .emptySequence
      · obtain rfl : m = .parallel [] := heq
        exact h _ .emptyParallel

/-- Compiling selects a flow, which is then refused or compiled. -/
theorem compile_eq (master : MasterAgent) (key : Option String) (inputs : ResolvedInputs)
    (injectsAll : Bool) :
    compile master key inputs injectsAll = (do
      let f ← master.flow key
      orRefused
        ((f.flow.sites f.name).findSome? (offence? (master.agents.map AgentConfig.name)))
        (Plan.ofRoot f.name (compiled (scopeOf master inputs injectsAll) f.name f.flow))) := by
  refine congrArg (master.flow key >>= ·) (funext fun f => ?_)
  show (step (scopeOf master inputs injectsAll) f.name f.flow >>= fun root =>
    .ok (Plan.ofRoot f.name root)) = _
  rw [step_eq]
  show (orRefused ((f.flow.sites f.name).findSome? (offence? (master.agents.map AgentConfig.name)))
    (compiled (scopeOf master inputs injectsAll) f.name f.flow) >>= _) = _
  cases (f.flow.sites f.name).findSome? (offence? (master.agents.map AgentConfig.name)) <;> rfl

theorem compile_eq_error_iff {master : MasterAgent} {key : Option String}
    {inputs : ResolvedInputs} {injectsAll : Bool} {e : Invalid} :
    compile master key inputs injectsAll = .error e ↔
      master.Lacks key ∧ e = .flowNotFound (key.getD "<default>") ∨
      ∃ f, master.flow key = .ok f ∧
        FirstOffence (master.agents.map AgentConfig.name) (f.flow.sites f.name) e := by
  rw [compile_eq, ← MasterAgent.flow_eq_error_iff]
  cases master.flow key with
  | error e' => simp [bind, Except.bind]
  | ok f =>
      show orRefused _ _ = .error e ↔ _
      rw [orRefused_eq_error_iff, findSome?_offence?_eq_some_iff]
      simp

theorem compile_eq_ok_iff {master : MasterAgent} {key : Option String}
    {inputs : ResolvedInputs} {injectsAll : Bool} {plan : Plan} :
    compile master key inputs injectsAll = .ok plan ↔
      ∃ f, master.flow key = .ok f ∧ Sound (master.agents.map AgentConfig.name) f.flow ∧
        plan = Plan.ofRoot f.name (compiled (scopeOf master inputs injectsAll) f.name f.flow) := by
  rw [compile_eq]
  cases master.flow key with
  | error e => simp [bind, Except.bind]
  | ok f =>
      show orRefused _ _ = .ok plan ↔ _
      rw [orRefused_eq_ok_iff, ← sound_iff]
      simp [eq_comm]

/-- In a valid definition no node is empty, so only an agent can be missing. -/
theorem unknownAgent_of_valid {master : MasterAgent} (hvalid : master.validate = .ok ())
    {key : Option String} {f : FlowDefinition} (hflow : master.flow key = .ok f) {e : Invalid}
    (h : FirstOffence (master.agents.map AgentConfig.name) (f.flow.sites f.name) e) :
    ∃ agent name, e = .unknownAgent agent name := by
  obtain ⟨before, ⟨name, n⟩, after, hsites, hoffends, -⟩ := h
  have hmem : n ∈ f.flow.walk := by
    rw [← Node.map_snd_sites f.name, hsites]
    simp
  have hnode := (MasterAgent.validate_eq_ok_iff.mp hvalid).nodes f
    (MasterAgent.mem_flows_of_flow hflow) n hmem
  cases hoffends with
  | unknownAgent h => exact ⟨_, _, rfl⟩
  | emptySequence => exact absurd (.inl rfl) hnode
  | emptyParallel => exact absurd (.inr rfl) hnode

/-- **Compiling is decided by the flow.** A flow is compiled exactly if it
is found, its agents are declared and none of its nodes is empty, whatever
the inputs are. Otherwise there is no such flow, or the first node in reading
order that is refused is the reason; in a valid definition that is a call of
an agent that is not declared. A plan has the tree of its flow, with steps
named by their paths. -/
theorem compile_decided (master : MasterAgent) (key : Option String) (inputs : ResolvedInputs)
    (injectsAll : Bool) :
    ((∃ plan, compile master key inputs injectsAll = .ok plan) ↔
      ∃ f, master.flow key = .ok f ∧ Sound (master.agents.map AgentConfig.name) f.flow) ∧
    (∀ e, compile master key inputs injectsAll = .error e ↔
      master.Lacks key ∧ e = .flowNotFound (key.getD "<default>") ∨
      ∃ f, master.flow key = .ok f ∧
        FirstOffence (master.agents.map AgentConfig.name) (f.flow.sites f.name) e) ∧
    (master.validate = .ok () → ∀ e, compile master key inputs injectsAll = .error e →
      e = .flowNotFound (key.getD "<default>") ∨ ∃ agent name, e = .unknownAgent agent name) ∧
    ∀ plan, compile master key inputs injectsAll = .ok plan →
      ∃ f, master.flow key = .ok f ∧ Mirrors f plan := by
  refine ⟨?_, fun e => compile_eq_error_iff, ?_, ?_⟩
  · simp only [compile_eq_ok_iff]
    constructor
    · rintro ⟨plan, f, hflow, hsound, -⟩
      exact ⟨f, hflow, hsound⟩
    · rintro ⟨f, hflow, hsound⟩
      exact ⟨_, f, hflow, hsound, rfl⟩
  · intro hvalid e h
    rcases compile_eq_error_iff.mp h with ⟨-, he⟩ | ⟨f, hflow, hfirst⟩
    · exact .inl he
    · exact .inr (unknownAgent_of_valid hvalid hflow hfirst)
  · intro plan h
    obtain ⟨f, hflow, -, rfl⟩ := compile_eq_ok_iff.mp h
    exact ⟨f, hflow, mirrors_compiled _ f⟩

/-- A flow of the given nodes, in sequence. -/
def sequenceOf (agents : List String) (nodes : List Node) : MasterAgent :=
  { id := "", displayName := "", published := true, locale := none, inputs := []
    agents := agents.map fun name => { name, model := "", system := "", tools := [] }
    flows := [{ name := "main", code := none, flow := .sequence nodes }]
    resultFormat := "" }

/-- A call of an unknown agent below a node, and an empty node behind it. -/
def faulty : MasterAgent :=
  sequenceOf ["a"] [.agentCall "a" none, .parallel [.agentCall "ghost" none], .sequence []]

/-- The same flow with its faults mended. -/
def mended : MasterAgent :=
  sequenceOf ["a", "ghost"] [.agentCall "a" none, .parallel [.agentCall "ghost" none]]

/-- The fault that a reader meets first is told, at the place of the call.
Once it is mended the flow is compiled, and only a flow that is not there
can be refused. -/
theorem compile_decided_faulty :
    (∀ inputs injectsAll, compile faulty none inputs injectsAll
        = .error (.unknownAgent "ghost" "main/1:parallel/0:ghost")) ∧
      mended.validate = .ok () ∧
      compile mended (some "other") .empty true = .error (.flowNotFound "other") ∧
      ∃ plan, compile mended none .empty true = .ok plan ∧ Mirrors mended.flows[0] plan ∧
        plan.outline = { flow := "main", steps := 4, calls := 2, depth := 3 } := by
  have hoffends : FirstOffence ["a"] (faulty.flows[0].flow.sites "main")
      (.unknownAgent "ghost" "main/1:parallel/0:ghost") :=
    findSome?_offence?_eq_some_iff.mp (by decide +kernel)
  have hlacks : mended.Lacks (some "other") := List.forall_mem_singleton.mpr (by decide)
  obtain ⟨plan, hplan⟩ : ∃ plan, compile mended none .empty true = .ok plan := ⟨_, rfl⟩
  obtain ⟨f, hflow, hmirrors⟩ := (compile_decided mended none .empty true).2.2.2 plan hplan
  obtain rfl : mended.flows[0] = f := Except.ok.inj hflow
  refine ⟨fun inputs injectsAll => ?_, rfl, ?_, plan, hplan, hmirrors, ?_⟩
  · exact ((compile_decided faulty none inputs injectsAll).2.1 _).mpr (.inr ⟨_, rfl, hoffends⟩)
  · exact ((compile_decided mended (some "other") .empty true).2.1 _).mpr (.inl ⟨hlacks, rfl⟩)
  · rw [hmirrors.outline]
    decide +kernel

end Compile

end Ensemble
