import Ensemble.Compile
import Ensemble.Proofs.Except
import Ensemble.Proofs.Plan.Tree
import Ensemble.Proofs.Template.Holes
import Mathlib.Data.List.Forall2

/-!
# What compiling gives

A stored node is compiled child by child; the children of a node get its
name with their place and label. `step_ind` is the induction that all later
files use: what holds of compiled calls, and of a node when it does of its
children, holds of all compiled steps. By it a plan calls no agent that its
definition does not have (`calls_declared`).
-/

namespace Ensemble

/-- Induction on a stored node: a node has all its children below it. -/
@[induction_eliminator]
theorem Node.ind {motive : Node → Prop} (agentCall : ∀ agent input, motive (.agentCall agent input))
    (sequence : ∀ nodes, (∀ n ∈ nodes, motive n) → motive (.sequence nodes))
    (parallel : ∀ nodes, (∀ n ∈ nodes, motive n) → motive (.parallel nodes)) (n : Node) :
    motive n :=
  n.rec (motive_1 := motive) (motive_2 := fun nodes => ∀ n ∈ nodes, motive n) agentCall sequence
    parallel (by simp)
    (fun n rest hn hrest m hm => (List.mem_cons.mp hm).elim (fun heq => heq ▸ hn) (hrest m))

namespace Compile

/-- A message by the text and the slots of its template, each on its own. -/
theorem message_eq (s : Scope) (template : String) :
    message s template
      = if Text.isBlankText (Template.render template s.value?) then
          (.user (s.injected template), [])
        else
          (.user (.text (Template.render template s.value?) :: s.injected template),
            Template.slots template s.value?) := by
  rw [message, Template.renderWithSlots_eq]

/-- The name of a child of a node. -/
def childName (path : String) (index : Nat) (n : Node) : String := s!"{path}/{index}:{label n}"

/-- The call that a template is compiled to. -/
def compiledCall (s : Scope) (name agent : String) (input : Option String) : Call :=
  { name, agent, message := (message s (input.getD "")).1, slots := (message s (input.getD "")).2 }

variable {s : Scope} {name path : String} {index : Nat} {nodes : List Node} {t : Step}
  {ts : List Step}

theorem step_agentCall {agent : String} {input : Option String}
    (h : step s name (.agentCall agent input) = .ok t) :
    s.agents.contains agent = true ∧ t = .call (compiledCall s name agent input) := by
  rw [step] at h
  by_cases hagent : s.agents.contains agent = true
  · rw [if_pos hagent] at h
    cases hm : message s (input.getD "") with
    | mk m slots =>
        rw [hm] at h
        refine ⟨hagent, ?_⟩
        rw [compiledCall, hm]
        exact (Except.ok.inj h).symm
  · rw [if_neg hagent] at h
    cases h

/-- What a node with children is compiled to, if it is not refused. -/
theorem composite_eq_ok {α β : Type} {empty : Bool} {e : Invalid} {children : Except Invalid α}
    {node : α → β} {t : β}
    (h : (if empty then .error e else do return node (← children)) = Except.ok t) :
    empty = false ∧ ∃ ts, children = .ok ts ∧ t = node ts := by
  split at h
  · cases h
  · rename_i hempty
    obtain ⟨ts, hts, h⟩ := eq_ok_of_bind h
    exact ⟨by simpa using hempty, ts, hts, (Except.ok.inj h).symm⟩

theorem step_sequence (h : step s name (.sequence nodes) = .ok t) :
    nodes ≠ [] ∧ ∃ ts, steps s name 0 nodes = .ok ts ∧ t = .sequence name ts := by
  rw [step] at h
  obtain ⟨hempty, hts⟩ := composite_eq_ok h
  exact ⟨by simpa using hempty, hts⟩

theorem step_parallel (h : step s name (.parallel nodes) = .ok t) :
    nodes ≠ [] ∧ ∃ ts, steps s name 0 nodes = .ok ts ∧ t = .parallel name ts := by
  rw [step] at h
  obtain ⟨hempty, hts⟩ := composite_eq_ok h
  exact ⟨by simpa using hempty, hts⟩

/-- Each child is compiled under its own name. -/
theorem steps_getElem (h : steps s path index nodes = .ok ts) :
    ts.length = nodes.length ∧ ∀ i n t, nodes[i]? = some n → ts[i]? = some t →
      step s (childName path (index + i) n) n = .ok t := by
  induction nodes generalizing index ts with
  | nil =>
      rw [steps] at h
      obtain rfl := Except.ok.inj h
      exact ⟨rfl, by simp⟩
  | cons n rest ih =>
      rw [steps] at h
      obtain ⟨first, hfirst, h⟩ := eq_ok_of_bind h
      obtain ⟨others, hrest, h⟩ := eq_ok_of_bind h
      obtain rfl := Except.ok.inj h
      obtain ⟨hlen, hall⟩ := ih hrest
      refine ⟨by simp [hlen], fun i m t hm ht => ?_⟩
      cases i with
      | zero =>
          obtain rfl := Option.some.inj hm
          obtain rfl := Option.some.inj ht
          exact hfirst
      | succ i =>
          have hi := hall i m t (by simpa using hm) (by simpa using ht)
          rwa [Nat.add_right_comm] at hi

theorem steps_children (h : steps s path 0 nodes = .ok ts) :
    ts.length = nodes.length ∧ ∀ i n t, nodes[i]? = some n → ts[i]? = some t →
      step s (childName path i n) n = .ok t := by
  obtain ⟨hlen, hall⟩ := steps_getElem h
  refine ⟨hlen, fun i n t hn ht => ?_⟩
  have hi := hall i n t hn ht
  rwa [Nat.zero_add] at hi

/-- A compiled child comes of the child at its place. -/
theorem exists_child (hlen : ts.length = nodes.length) (ht : t ∈ ts) :
    ∃ (i : Nat) (n : Node), nodes[i]? = some n ∧ ts[i]? = some t := by
  obtain ⟨i, hi, rfl⟩ := List.getElem_of_mem ht
  exact ⟨i, _, List.getElem?_eq_getElem (hlen ▸ hi), List.getElem?_eq_getElem hi⟩

/-- Induction on a compiled step. -/
theorem step_ind {motive : String → Node → Step → Prop}
    (call : ∀ name agent input, s.agents.contains agent = true →
      motive name (.agentCall agent input) (.call (compiledCall s name agent input)))
    (sequence : ∀ name nodes ts, nodes ≠ [] → ts.length = nodes.length →
      (∀ i n t, nodes[i]? = some n → ts[i]? = some t → motive (childName name i n) n t) →
      motive name (.sequence nodes) (.sequence name ts))
    (parallel : ∀ name nodes ts, nodes ≠ [] → ts.length = nodes.length →
      (∀ i n t, nodes[i]? = some n → ts[i]? = some t → motive (childName name i n) n t) →
      motive name (.parallel nodes) (.parallel name ts))
    {n : Node} (h : step s name n = .ok t) : motive name n t := by
  induction n generalizing name t with
  | agentCall agent input =>
      obtain ⟨hagent, rfl⟩ := step_agentCall h
      exact call name agent input hagent
  | sequence nodes ih =>
      obtain ⟨hne, ts, hts, rfl⟩ := step_sequence h
      obtain ⟨hlen, hall⟩ := steps_children hts
      exact sequence name nodes ts hne hlen fun i n t hn ht =>
        ih n (List.mem_of_getElem? hn) (hall i n t hn ht)
  | parallel nodes ih =>
      obtain ⟨hne, ts, hts, rfl⟩ := step_parallel h
      obtain ⟨hlen, hall⟩ := steps_children hts
      exact parallel name nodes ts hne hlen fun i n t hn ht =>
        ih n (List.mem_of_getElem? hn) (hall i n t hn ht)

/-- What a plan is compiled with. -/
def scopeOf (master : MasterAgent) (inputs : ResolvedInputs) (injectsAll : Bool) : Scope :=
  { agents := master.agents.map AgentConfig.name, declarations := master.inputs, inputs
    injectsAll }

theorem compile_eq_ok {master : MasterAgent} {key : Option String} {inputs : ResolvedInputs}
    {injectsAll : Bool} {plan : Plan} (h : compile master key inputs injectsAll = .ok plan) :
    ∃ f, master.flow key = .ok f
      ∧ step (scopeOf master inputs injectsAll) f.name f.flow = .ok plan.root
      ∧ plan = Plan.ofRoot f.name plan.root := by
  obtain ⟨f, hflow, h⟩ := eq_ok_of_bind h
  obtain ⟨root, hroot, hplan⟩ := eq_ok_of_bind h
  obtain rfl := Except.ok.inj hplan
  exact ⟨f, hflow, hroot, rfl⟩

/-- All calls of a tree are of agents that the scope has. -/
def CallsDeclared (s : Scope) (t : Step) : Prop := ∀ c ∈ t.calls, c.agent ∈ s.agents

theorem callsDeclared_node {root : Step} (hcalls : root.calls = ts.flatMap Step.calls)
    (hlen : ts.length = nodes.length)
    (hall : ∀ (i : Nat) (n : Node) (t : Step), nodes[i]? = some n → ts[i]? = some t →
      CallsDeclared s t) :
    CallsDeclared s root := by
  intro c hc
  rw [hcalls] at hc
  obtain ⟨t, ht, hct⟩ := List.mem_flatMap.mp hc
  obtain ⟨i, n, hn, hi⟩ := exists_child hlen ht
  exact hall i n t hn hi c hct

theorem step_callsDeclared {n : Node} (h : step s name n = .ok t) : CallsDeclared s t := by
  refine step_ind (motive := fun _ _ t => CallsDeclared s t) ?_ ?_ ?_ h
  · intro name agent input hagent c hc
    obtain rfl := List.mem_singleton.mp hc
    exact List.contains_iff_mem.mp hagent
  · intro name nodes ts _ hlen hall
    exact callsDeclared_node (Step.calls_sequence name ts) hlen hall
  · intro name nodes ts _ hlen hall
    exact callsDeclared_node (Step.calls_parallel name ts) hlen hall

/-- A plan calls agents of its definition only. -/
theorem calls_declared {master : MasterAgent} {key : Option String} {inputs : ResolvedInputs}
    {injectsAll : Bool} {plan : Plan} (h : compile master key inputs injectsAll = .ok plan) :
    ∀ c ∈ plan.root.calls, c.agent ∈ master.agents.map AgentConfig.name := by
  obtain ⟨f, -, hroot, -⟩ := compile_eq_ok h
  exact step_callsDeclared hroot

end Compile

end Ensemble
