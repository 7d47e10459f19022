import Ensemble.Proofs.Definition.Validation

/-!
# Selecting flows

The keys of the flows of a valid definition differ (`keys_nodup_of_valid`),
but a flow can be asked for by its name as well, and the first flow that
goes by what is asked for is taken. So the name of an earlier flow hides
the flow that has the same text as its key, and nothing else does
(`flow_key_eq_ok_iff`). No flow is found if none goes by what is asked for
(`flow_eq_error_iff`).
-/

namespace Ensemble.MasterAgent

/-! ## Valid definitions -/

theorem keys_nodup_of_valid {m : MasterAgent} (hvalid : m.validate = .ok ()) :
    (m.flows.map FlowDefinition.key).Nodup := (validate_eq_ok_iff.mp hvalid).keys

/-! ## Selection -/

/-- No flow goes by what is asked for. -/
def Lacks (m : MasterAgent) : Option String → Prop
  | some key => ∀ f ∈ m.flows, f.key ≠ key ∧ f.name ≠ key
  | none => m.flows = []

theorem flow_eq_error_iff {m : MasterAgent} {key : Option String} {e : Invalid} :
    m.flow key = .error e ↔ m.Lacks key ∧ e = .flowNotFound (key.getD "<default>") := by
  cases key with
  | none =>
      rw [flow, Lacks]
      cases m.flows with
      | nil => simp [eq_comm]
      | cons f rest => simp
  | some key =>
      rw [flow, Lacks]
      cases hfind : m.flows.find? fun f => f.key == key || f.name == key with
      | none =>
          have hnone : ∀ f ∈ m.flows, f.key ≠ key ∧ f.name ≠ key := by
            simpa [List.find?_eq_none] using hfind
          exact ⟨fun h => ⟨hnone, (Except.error.inj h).symm⟩, fun h => congrArg _ h.2.symm⟩
      | some f =>
          have hfound : f.key = key ∨ f.name = key := by simpa using List.find?_some hfind
          have hmem := List.mem_of_find?_eq_some hfind
          refine iff_of_false (fun h => ?_) fun h => ?_
          · cases h
          · exact hfound.elim (h.1 f hmem).1 (h.1 f hmem).2

theorem mem_flows_of_flow {m : MasterAgent} {key : Option String} {f : FlowDefinition}
    (h : m.flow key = .ok f) : f ∈ m.flows := by
  cases key with
  | none =>
      rw [flow] at h
      cases hhead : m.flows.head? with
      | none => simp [hhead] at h
      | some g =>
          obtain rfl : g = f := by simpa [hhead] using h
          exact List.mem_of_head? hhead
  | some key =>
      rw [flow] at h
      cases hfind : m.flows.find? fun f => f.key == key || f.name == key with
      | none => simp [hfind] at h
      | some g =>
          obtain rfl : g = f := by simpa [hfind] using h
          exact List.mem_of_find?_eq_some hfind

/-- **What a key selects.** A flow of a valid definition is selected by its key
exactly if no flow before it has that key as its name. -/
theorem flow_key_eq_ok_iff {m : MasterAgent} (hvalid : m.validate = .ok ())
    {before after : List FlowDefinition} {f : FlowDefinition}
    (hflows : m.flows = before ++ f :: after) :
    m.flow (some f.key) = .ok f ↔ ∀ g ∈ before, g.name ≠ f.key := by
  have hself : (f.key == f.key || f.name == f.key) = true := by simp
  have hkeys : ∀ g ∈ before, g.key ≠ f.key := by
    have hnodup := keys_nodup_of_valid hvalid
    rw [hflows, List.map_append, List.map_cons] at hnodup
    intro g hg heq
    exact (List.nodup_append.mp hnodup).2.2 _ (List.mem_map_of_mem hg) _ (List.mem_cons_self ..) heq
  cases hfirst : before.find? fun g => g.key == f.key || g.name == f.key with
  | some g =>
      -- an earlier flow is taken, which is another one as its key is
      have hmem := List.mem_of_find?_eq_some hfirst
      have hname : g.name = f.key := by
        simpa [hkeys g hmem] using (List.find?_eq_some_iff_append.mp hfirst).1
      have hselect : m.flow (some f.key) = .ok g := by simp [flow, hflows, hfirst]
      rw [hselect]
      refine iff_of_false (fun heq => ?_) fun hnone => hnone g hmem hname
      exact hkeys g hmem (congrArg FlowDefinition.key (Except.ok.inj heq))
  | none =>
      have hselect : m.flow (some f.key) = .ok f := by simp [flow, hflows, hfirst]
      refine iff_of_true hselect fun g hg heq => ?_
      simpa [heq] using List.find?_eq_none.mp hfirst g hg

/-- A definition of one agent and flows that call it. -/
def ofFlows (flows : List (String × String)) : MasterAgent :=
  { id := "a", displayName := "", published := false, locale := none, inputs := []
    agents := [{ name := "writer", model := "m", system := "", tools := [] }]
    flows := flows.map fun (name, code) =>
      { name, code := some code, flow := .agentCall "writer" none }
    resultFormat := "markdown" }

/-- The first flow has the code of the second one as its name. -/
def overlapping : MasterAgent := ofFlows [("draft", "first"), ("final", "draft")]

/-- The definition is valid, but one of its flows is hidden. -/
theorem flow_hidden_by_name :
    overlapping.validate = .ok () ∧
      ∃ f ∈ overlapping.flows, overlapping.flow (some f.key) ≠ .ok f := by
  refine ⟨rfl, overlapping.flows[1], List.getElem_mem _, fun hselect => ?_⟩
  have hname : "draft" = "final" := congrArg FlowDefinition.name (Except.ok.inj hselect)
  exact absurd hname (by decide)

/-- The same flows in the other order. -/
def reordered : MasterAgent := ofFlows [("final", "draft"), ("draft", "first")]

/-- Now the flow is found by its code, although the one behind it has that name. -/
theorem flow_key_eq_ok_iff_reordered :
    reordered.validate = .ok () ∧ ∀ f ∈ reordered.flows, reordered.flow (some f.key) = .ok f := by
  have hvalid : reordered.validate = .ok () := rfl
  have hfirst : reordered.flows = [] ++ reordered.flows[0] :: [reordered.flows[1]] := rfl
  have hsecond : reordered.flows = [reordered.flows[0]] ++ reordered.flows[1] :: [] := rfl
  have hfinal := (flow_key_eq_ok_iff hvalid hfirst).mpr (by simp)
  have hdraft := (flow_key_eq_ok_iff hvalid hsecond).mpr
    (List.forall_mem_singleton.mpr (by decide))
  exact ⟨hvalid, List.forall_mem_cons.mpr ⟨hfinal, List.forall_mem_singleton.mpr hdraft⟩⟩

end Ensemble.MasterAgent
