import Ensemble.Proofs.Compile.Steps
import Ensemble.Proofs.Definition.Validation

/-!
# When a flow is refused

Each node of a stored tree has its place, which is the name that its step
gets (`Node.sites`). A node is refused there if it calls an agent that is
not declared, or is empty (`Offends`). The first such node in reading order
decides why a tree is refused, and a tree without one is compiled, to
`compiled` (`step_eq`). Inputs and templates have no say in this.
-/

namespace Ensemble

namespace Node

open Compile (childName)

mutual

/-- The nodes of a tree in reading order, with the names of their steps. -/
def sites (name : String) : Node → List (String × Node)
  | .agentCall agent input => [(name, .agentCall agent input)]
  | .sequence nodes => (name, .sequence nodes) :: sitesAll name 0 nodes
  | .parallel nodes => (name, .parallel nodes) :: sitesAll name 0 nodes

/-- The nodes under a node, whose children are counted from `index` on. -/
def sitesAll (path : String) (index : Nat) : List Node → List (String × Node)
  | [] => []
  | n :: rest => sites (childName path index n) n ++ sitesAll path (index + 1) rest

end

mutual

theorem map_snd_sites (name : String) : ∀ n : Node, (n.sites name).map Prod.snd = n.walk
  | .agentCall agent input => rfl
  | .sequence nodes => by rw [sites, walk, List.map_cons, map_snd_sitesAll]
  | .parallel nodes => by rw [sites, walk, List.map_cons, map_snd_sitesAll]

theorem map_snd_sitesAll (path : String) (index : Nat) :
    ∀ nodes : List Node, (sitesAll path index nodes).map Prod.snd = walkAll nodes
  | [] => rfl
  | n :: rest => by
      rw [sitesAll, walkAll, List.map_append, map_snd_sites, map_snd_sitesAll]

end

end Node

namespace Compile

/-! ## Refused nodes -/

/-- A node is refused where its step would have the given name. -/
inductive Offends (agents : List String) : String × Node → Invalid → Prop
  | unknownAgent {name agent : String} {input : Option String} (h : agent ∉ agents) :
      Offends agents (name, .agentCall agent input) (.unknownAgent agent name)
  | emptySequence {name : String} :
      Offends agents (name, .sequence []) (.emptyComposite "sequence" name)
  | emptyParallel {name : String} :
      Offends agents (name, .parallel []) (.emptyComposite "parallel" name)

/-- Why a node is refused, if it is. -/
def offence? (agents : List String) : String × Node → Option Invalid
  | (name, .agentCall agent _) =>
    if agents.contains agent then none else some (.unknownAgent agent name)
  | (name, .sequence nodes) =>
    if nodes.isEmpty then some (.emptyComposite "sequence" name) else none
  | (name, .parallel nodes) =>
    if nodes.isEmpty then some (.emptyComposite "parallel" name) else none

theorem offence?_eq_some_iff {agents : List String} {site : String × Node} {e : Invalid} :
    offence? agents site = some e ↔ Offends agents site e := by
  constructor
  · intro h
    obtain ⟨name, agent | nodes | nodes⟩ := site
    · by_cases hagent : agent ∈ agents
      · simp [offence?, hagent] at h
      · obtain rfl : Invalid.unknownAgent agent name = e := by simpa [offence?, hagent] using h
        exact .unknownAgent hagent
    · cases nodes with
      | nil =>
          obtain rfl := Option.some.inj h
          exact .emptySequence
      | cons n rest => cases h
    · cases nodes with
      | nil =>
          obtain rfl := Option.some.inj h
          exact .emptyParallel
      | cons n rest => cases h
  · rintro (h | h)
    · simp [offence?, h]
    · rfl
    · rfl

theorem offence?_eq_none_iff {agents : List String} {site : String × Node} :
    offence? agents site = none ↔ ∀ e, ¬Offends agents site e := by
  rw [Option.eq_none_iff_forall_ne_some]
  exact forall_congr' fun e => not_congr offence?_eq_some_iff

/-- The first node that is refused is refused for the given reason. -/
def FirstOffence (agents : List String) (sites : List (String × Node)) (e : Invalid) : Prop :=
  ∃ before site after, sites = before ++ site :: after ∧ Offends agents site e ∧
    ∀ earlier ∈ before, ∀ e', ¬Offends agents earlier e'

theorem findSome?_offence?_eq_some_iff {agents : List String} {sites : List (String × Node)}
    {e : Invalid} : sites.findSome? (offence? agents) = some e ↔ FirstOffence agents sites e := by
  rw [List.findSome?_eq_some_iff]
  simp only [offence?_eq_some_iff, offence?_eq_none_iff]
  rfl

/-! ## Compiled trees -/

mutual

/-- What a tree is compiled to if no node is refused. -/
def compiled (s : Scope) (name : String) : Node → Step
  | .agentCall agent input => .call (compiledCall s name agent input)
  | .sequence nodes => .sequence name (compiledAll s name 0 nodes)
  | .parallel nodes => .parallel name (compiledAll s name 0 nodes)

/-- The steps under a node, counted from `index` on. -/
def compiledAll (s : Scope) (path : String) (index : Nat) : List Node → List Step
  | [] => []
  | n :: rest => compiled s (childName path index n) n :: compiledAll s path (index + 1) rest

end

/-- A result, unless something is refused. -/
def orRefused {α : Type} (refused : Option Invalid) (result : α) : Except Invalid α :=
  match refused with
  | some e => .error e
  | none => .ok result

theorem orRefused_eq_ok_iff {α : Type} {refused : Option Invalid} {result a : α} :
    orRefused refused result = .ok a ↔ refused = none ∧ result = a := by
  cases refused <;> simp [orRefused]

theorem orRefused_eq_error_iff {α : Type} {refused : Option Invalid} {result : α} {e : Invalid} :
    orRefused refused result = .error e ↔ refused = some e := by
  cases refused <;> simp [orRefused]

/-- A node with children is refused first, and then those below it are. -/
theorem composite_eq {agents : List String} {site : String × Node} {e : Invalid} {empty : Bool}
    {below : List (String × Node)} {ts : List Step} {node : List Step → Step}
    (hsite : offence? agents site = if empty then some e else none) :
    (if empty then .error e
      else do return node (← orRefused (below.findSome? (offence? agents)) ts))
      = orRefused ((site :: below).findSome? (offence? agents)) (node ts) := by
  rw [List.findSome?_cons, hsite]
  cases empty with
  | true => rfl
  | false => cases below.findSome? (offence? agents) <;> rfl

mutual

/-- A tree is compiled unless a node is refused, and the first one that is
decides. -/
theorem step_eq (s : Scope) (name : String) : ∀ n : Node,
    step s name n = orRefused ((n.sites name).findSome? (offence? s.agents)) (compiled s name n)
  | .agentCall agent input => by
      rw [step, Node.sites, compiled, compiledCall, List.findSome?_cons, List.findSome?_nil,
        offence?]
      obtain ⟨sent, slots⟩ := message s (input.getD "")
      cases s.agents.contains agent <;> rfl
  | .sequence nodes => by
      rw [step, Node.sites, compiled, steps_eq]
      exact composite_eq rfl
  | .parallel nodes => by
      rw [step, Node.sites, compiled, steps_eq]
      exact composite_eq rfl

theorem steps_eq (s : Scope) (path : String) (index : Nat) : ∀ nodes : List Node,
    steps s path index nodes
      = orRefused ((Node.sitesAll path index nodes).findSome? (offence? s.agents))
          (compiledAll s path index nodes)
  | [] => rfl
  | n :: rest => by
      have hfirst := step_eq s (childName path index n) n
      rw [childName] at hfirst
      rw [steps, Node.sitesAll, compiledAll, List.findSome?_append, steps_eq, hfirst, childName]
      cases (n.sites s!"{path}/{index}:{label n}").findSome? (offence? s.agents) with
      | some e => rfl
      | none =>
          cases (Node.sitesAll path (index + 1) rest).findSome? (offence? s.agents) <;> rfl

end

end Compile

end Ensemble
