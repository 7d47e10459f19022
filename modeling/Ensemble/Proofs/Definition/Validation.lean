import Ensemble.Definition.Basic
import Ensemble.Proofs.Compile.Steps
import Ensemble.Proofs.Definition.Tree
import Mathlib.Data.List.Nodup

/-!
# Valid definitions

A definition passes exactly if it has agents and flows, the names of agents
and inputs and the keys of flows do not repeat, and no node of a flow is
empty (`validate_eq_ok_iff`).
-/

namespace Ensemble

namespace Node

mutual

/-- A tree passes if none of its nodes is empty, whatever the path to it. -/
theorem validate_eq_ok_iff (path : String) :
    ∀ n : Node, n.validate path = .ok () ↔ ∀ m ∈ n.walk, ¬m.IsEmptyNode
  | .agentCall agent input => by simp [validate, walk, IsEmptyNode]
  | .sequence [] => by simp [validate, walk, IsEmptyNode]
  | .sequence (n :: rest) => by
      rw [validate, if_neg (by simp), walk, List.forall_mem_cons, validateAll_eq_ok_iff]
      exact ⟨fun h => ⟨by simp [IsEmptyNode], h⟩, fun h => h.2⟩
  | .parallel [] => by simp [validate, walk, IsEmptyNode]
  | .parallel (n :: rest) => by
      rw [validate, if_neg (by simp), walk, List.forall_mem_cons, validateAll_eq_ok_iff]
      exact ⟨fun h => ⟨by simp [IsEmptyNode], h⟩, fun h => h.2⟩

theorem validateAll_eq_ok_iff (path : String) (index : Nat) :
    ∀ nodes : List Node,
      validateAll path index nodes = .ok () ↔ ∀ m ∈ walkAll nodes, ¬m.IsEmptyNode
  | [] => by simp [validateAll, walkAll]
  | n :: rest => by
      rw [validateAll, walkAll, List.forall_mem_append, ← validate_eq_ok_iff s!"{path}/{index}" n,
        ← validateAll_eq_ok_iff path (index + 1) rest]
      cases n.validate s!"{path}/{index}" <;> simp [bind, Except.bind]

end

end Node

namespace MasterAgent

/-- What a definition must satisfy. -/
structure Valid (m : MasterAgent) : Prop where
  agents_ne_nil : m.agents ≠ []
  flows_ne_nil : m.flows ≠ []
  agents : (m.agents.map AgentConfig.name).Nodup
  inputs : (m.inputs.map InputDeclaration.name).Nodup
  keys : (m.flows.map FlowDefinition.key).Nodup
  nodes : ∀ f ∈ m.flows, ∀ n ∈ f.flow.walk, ¬n.IsEmptyNode

theorem repeated?_eq_none_iff {seen names : List String} :
    repeated? seen names = none ↔ names.Nodup ∧ ∀ name ∈ names, name ∉ seen := by
  induction names generalizing seen with
  | nil => simp [repeated?]
  | cons name rest ih =>
      rw [repeated?, List.nodup_cons, List.forall_mem_cons]
      by_cases hseen : name ∈ seen
      · simp [hseen]
      · rw [if_neg (by simpa using hseen), ih]
        constructor
        · rintro ⟨hnodup, hrest⟩
          refine ⟨⟨fun hmem => hrest name hmem (List.mem_cons_self ..), hnodup⟩, hseen, ?_⟩
          exact fun other hother hmem => hrest other hother (List.mem_cons_of_mem _ hmem)
        · rintro ⟨⟨hnew, hnodup⟩, -, hrest⟩
          refine ⟨hnodup, fun other hother hmem => ?_⟩
          rcases List.mem_cons.mp hmem with rfl | hmem
          · exact hnew hother
          · exact hrest other hother hmem

/-- Flows pass if their keys are new and differ, and no node in them is empty. -/
theorem validateFlows_eq_ok_iff {seen : List String} {flows : List FlowDefinition} :
    validateFlows seen flows = .ok () ↔
      repeated? seen (flows.map FlowDefinition.key) = none ∧
        ∀ f ∈ flows, ∀ n ∈ f.flow.walk, ¬n.IsEmptyNode := by
  induction flows generalizing seen with
  | nil => simp [validateFlows, repeated?]
  | cons f rest ih =>
      rw [validateFlows, List.map_cons, repeated?, List.forall_mem_cons,
        ← Node.validate_eq_ok_iff f.name f.flow]
      by_cases hseen : seen.contains f.key = true
      · rw [if_pos hseen, if_pos hseen]
        exact ⟨nofun, nofun⟩
      · rw [if_neg hseen, if_neg hseen, and_left_comm, ← ih]
        cases f.flow.validate f.name with
        | error e => exact ⟨nofun, fun h => absurd h.1 nofun⟩
        | ok u => exact ⟨fun h => ⟨rfl, h⟩, fun h => h.2⟩

/-- A definition passes if all its checks do, one behind the other. -/
theorem validate_eq_ok_iff_checks {m : MasterAgent} :
    m.validate = .ok () ↔ m.agents.isEmpty = false ∧ m.flows.isEmpty = false ∧
      repeated? [] (m.agents.map AgentConfig.name) = none ∧
      repeated? [] (m.inputs.map InputDeclaration.name) = none ∧
      validateFlows [] m.flows = .ok () := by
  rw [validate]
  cases m.agents.isEmpty with
  | true => exact ⟨nofun, fun h => absurd h.1 nofun⟩
  | false =>
  cases m.flows.isEmpty with
  | true => exact ⟨nofun, fun h => absurd h.2.1 nofun⟩
  | false =>
  cases repeated? [] (m.agents.map AgentConfig.name) with
  | some name => exact ⟨nofun, fun h => absurd h.2.2.1 nofun⟩
  | none =>
  cases repeated? [] (m.inputs.map InputDeclaration.name) with
  | some name => exact ⟨nofun, fun h => absurd h.2.2.2.1 nofun⟩
  | none => exact ⟨fun h => ⟨rfl, rfl, rfl, rfl, h⟩, fun h => h.2.2.2.2⟩

/-- What passes is what is valid. -/
theorem validate_eq_ok_iff {m : MasterAgent} : m.validate = .ok () ↔ m.Valid := by
  have hnodup : ∀ names, repeated? [] names = none ↔ names.Nodup := fun names => by
    simp [repeated?_eq_none_iff]
  simp only [validate_eq_ok_iff_checks, validateFlows_eq_ok_iff, hnodup, List.isEmpty_eq_false_iff]
  constructor
  · rintro ⟨hagents, hflows, hnames, hinputs, hkeys, hnodes⟩
    exact ⟨hagents, hflows, hnames, hinputs, hkeys, hnodes⟩
  · rintro ⟨hagents, hflows, hnames, hinputs, hkeys, hnodes⟩
    exact ⟨hagents, hflows, hnames, hinputs, hkeys, hnodes⟩

end MasterAgent

end Ensemble
