import Ensemble.Proofs.Compile.Steps
import Ensemble.Proofs.Plan.Binding

/-!
# Messages of compiled calls

The calls of a plan are those of the stored flow, in order, and the message
that a call sends is the template of its author, rendered once with the
values of the compiler and those of the steps before it
(`bind_renders_once`).
-/

namespace Ensemble

/-- A call that is bound with a lookup gets the given content, after it has
asked for the given names and no others. -/
def Call.Binds (c : Call) (lookup : String → Option String) (content : List Part)
    (asked : List String) : Prop :=
  c.bind? lookup = some { c.message with content } ∧
    (c.binding? lookup).map Binding.asked = some asked

theorem Call.binds_of_binding? {c : Call} {lookup : String → Option String} {content : List Part}
    {asked : List String} (h : c.binding? lookup = some { content, asked }) :
    c.Binds lookup content asked := by
  rw [Binds, bind?, h]
  exact ⟨rfl, rfl⟩

namespace Node

mutual

/-- The calls of a stored node in order, each with its agent and template. -/
def leaves : Node → List (String × String)
  | .agentCall agent input => [(agent, input.getD "")]
  | .sequence nodes => leavesAll nodes
  | .parallel nodes => leavesAll nodes

def leavesAll : List Node → List (String × String)
  | [] => []
  | n :: rest => leaves n ++ leavesAll rest

end

theorem leavesAll_eq_flatMap (nodes : List Node) : leavesAll nodes = nodes.flatMap leaves := by
  induction nodes with
  | nil => rfl
  | cons n rest ih => rw [leavesAll, ih, List.flatMap_cons]

end Node

namespace Compile

/-- What is sent for a template: the text, unless it is blank, and the files
behind it. -/
def Sends (s : Scope) (leaf : String × String) (c : Call) : Prop :=
  c.agent = leaf.1 ∧ c.message.role = .user ∧ ∀ lookup,
    if Text.isBlankText (Template.render leaf.2 s.value?) then
      c.Binds lookup (s.injected leaf.2) []
    else
      c.Binds lookup
        (.text (Template.render leaf.2 (Template.orElse s.value? lookup)) :: s.injected leaf.2)
        ((Template.names leaf.2).filter fun name => (s.value? name).isNone)

theorem compiledCall_sends (s : Scope) (name agent : String) (input : Option String) :
    Sends s (agent, input.getD "") (compiledCall s name agent input) := by
  by_cases hblank : Text.isBlankText (Template.render (input.getD "") s.value?) = true
  · have hmessage : message s (input.getD "") = (.user (s.injected (input.getD "")), []) := by
      rw [message_eq, if_pos hblank]
    refine ⟨rfl, by rw [compiledCall, hmessage]; rfl, fun lookup => ?_⟩
    rw [if_pos hblank]
    refine Call.binds_of_binding? ?_
    rw [Call.binding?_of_no_slots (by rw [compiledCall, hmessage]), compiledCall, hmessage]
    rfl
  · have hmessage : message s (input.getD "")
        = (.user (.text (Template.render (input.getD "") s.value?) :: s.injected (input.getD "")),
          Template.slots (input.getD "") s.value?) := by
      rw [message_eq, if_neg hblank]
    refine ⟨rfl, by rw [compiledCall, hmessage]; rfl, fun lookup => ?_⟩
    rw [if_neg hblank]
    refine Call.binds_of_binding? (Call.binding?_of_rendered ?_ ?_ lookup)
    · rw [compiledCall, hmessage]
      rfl
    · rw [compiledCall, hmessage]

/-- A compiled tree has the calls of its node, in order: what holds of each
compiled call and its template holds of all of them. -/
theorem step_leaves {s : Scope} {P : String × String → Call → Prop}
    (hcall : ∀ name agent input, P (agent, input.getD "") (compiledCall s name agent input))
    {name : String} {n : Node} {t : Step} (h : step s name n = .ok t) :
    List.Forall₂ P n.leaves t.calls := by
  -- lists of leaves are joined as those of calls are
  have hnode : ∀ {nodes : List Node} {ts : List Step}, ts.length = nodes.length →
      (∀ (i : Nat) (n : Node) (t : Step), nodes[i]? = some n → ts[i]? = some t →
        List.Forall₂ P n.leaves t.calls) →
      List.Forall₂ P (nodes.flatMap Node.leaves) (ts.flatMap Step.calls) := by
    intro nodes ts hlen hall
    have hchildren : List.Forall₂ (fun n t => List.Forall₂ P n.leaves t.calls) nodes ts :=
      List.forall₂_iff_get.mpr ⟨hlen.symm, fun i hi hi' =>
        hall i _ _ (List.getElem?_eq_getElem hi) (List.getElem?_eq_getElem hi')⟩
    exact List.rel_flatMap hchildren fun n t hnt => hnt
  refine step_ind (motive := fun _ n t => List.Forall₂ P n.leaves t.calls) ?_ ?_ ?_ h
  · intro name agent input _
    rw [Node.leaves]
    exact .cons (hcall name agent input) .nil
  · intro name nodes ts _ hlen hall
    rw [Node.leaves, Node.leavesAll_eq_flatMap, Step.calls_sequence]
    exact hnode hlen hall
  · intro name nodes ts _ hlen hall
    rw [Node.leaves, Node.leavesAll_eq_flatMap, Step.calls_parallel]
    exact hnode hlen hall

/-- **Two stages of a template are one.** A template that was rendered with
slots, and whose slots are filled when a call starts, gives the text that one
rendering with both lookups gives, and nothing but the holes of the template
is ever asked for.
The calls of a compiled plan are bound so, each with its own template. -/
theorem bind_renders_once :
    (∀ (template : String) (first second : String → Option String) (c : Call) (rest : List Part),
      c.message.content = .text (Template.renderWithSlots template first).1 :: rest →
      c.slots = (Template.renderWithSlots template first).2 →
      c.Binds second (.text (Template.render template (Template.orElse first second)) :: rest)
        ((Template.names template).filter fun name => (first name).isNone)) ∧
    ∀ (master : MasterAgent) (key : Option String) (f : FlowDefinition) (inputs : ResolvedInputs)
      (injectsAll : Bool) (plan : Plan),
      master.flow key = .ok f → compile master key inputs injectsAll = .ok plan →
      List.Forall₂ (Sends (scopeOf master inputs injectsAll)) f.flow.leaves plan.root.calls := by
  constructor
  · intro template first second c rest hcontent hslots
    rw [Template.renderWithSlots_eq] at hcontent hslots
    exact Call.binds_of_binding? (Call.binding?_of_rendered hcontent hslots second)
  · intro master key f inputs injectsAll plan hflow hplan
    obtain ⟨f', hflow', hroot, -⟩ := compile_eq_ok hplan
    obtain rfl := Except.ok.inj (hflow.symm.trans hflow')
    exact step_leaves (compiledCall_sends _) hroot

/-- Two agents; the second one is asked about what the first one has said, to
two questions at the same time. -/
def askAbout : MasterAgent :=
  let agent (name : String) : AgentConfig := { name, model := "", system := "", tools := [] }
  { id := "", displayName := "", published := true, locale := none, inputs := []
    agents := [agent "a", agent "b"]
    flows := [{ name := "main", code := none
                flow := .sequence
                  [.parallel [.agentCall "a" (some "one"), .agentCall "a" (some "two")],
                    .agentCall "b" (some "{{x}}: {{ a }}")] }]
    resultFormat := "" }

/-- Values with braces and wide characters of their own are not read for
holes. -/
theorem bind_renders_once_askAbout :
    (let c : Call := { name := "b", agent := "b", message := .user [.text "é{{y}}: {{ a }}"]
                       slots := [{ part := 0, start := 9, stop := 16, name := "a" }] }
     c.Binds (fun _ => some "{{x}}") [.text "é{{y}}: {{x}}"] ["a"]) ∧
    ∃ plan, compile askAbout none { values := [("x", "é{{y}}")], files := [], errors := [] } true
        = .ok plan ∧
      List.Forall₂ (Sends (scopeOf askAbout
        { values := [("x", "é{{y}}")], files := [], errors := [] } true))
        [("a", "one"), ("a", "two"), ("b", "{{x}}: {{ a }}")] plan.root.calls := by
  let inputs : ResolvedInputs := { values := [("x", "é{{y}}")], files := [], errors := [] }
  refine ⟨bind_renders_once.1 "{{x}}: {{ a }}" (fun name => inputs.values.lookup name)
    (fun _ => some "{{x}}") _ [] rfl rfl, ?_⟩
  obtain ⟨plan, hplan⟩ : ∃ plan, compile askAbout none inputs true = .ok plan := ⟨_, rfl⟩
  exact ⟨plan, hplan, bind_renders_once.2 askAbout none _ inputs true plan rfl hplan⟩

end Compile

end Ensemble
