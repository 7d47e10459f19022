import Ensemble.Proofs.Json.Printing
import Ensemble.Proofs.Plan.Tree

/-!
# What a step can see

A path leads to a step by the numbers of the children on the way. A step
sees the subtrees of the earlier siblings of itself and of the nodes above
it, but only where they are steps of one sequence (`Step.before`). Under a
name it sees the last of these steps, in post-order, that goes by that
name (`Step.lastKnownAs`), and what it is told of it is the text of its
value (`Step.Tells`).
-/

namespace Ensemble.Step

/-! ## Order and paths -/

mutual

/-- All steps of a tree, a step after those under it. -/
def postOrder : Step → List Step
  | .call c => [.call c]
  | .sequence name steps => postOrderAll steps ++ [.sequence name steps]
  | .parallel name steps => postOrderAll steps ++ [.parallel name steps]

def postOrderAll : List Step → List Step
  | [] => []
  | s :: rest => postOrder s ++ postOrderAll rest

end

theorem postOrderAll_append (ss ts : List Step) :
    postOrderAll (ss ++ ts) = postOrderAll ss ++ postOrderAll ts := by
  induction ss with
  | nil => rfl
  | cons s ss ih => rw [List.cons_append, postOrderAll, ih, postOrderAll, List.append_assoc]

/-- The step that a path leads to. -/
def at? : List Nat → Step → Option Step
  | [], s => some s
  | i :: path, s => s.children[i]?.bind (at? path)

/-- What the step at a path can see, in post-order. -/
def before : List Nat → Step → List Step
  | [], _ => []
  | i :: path, .sequence _ steps =>
    postOrderAll (steps.take i) ++ (steps[i]?.map (before path)).getD []
  | i :: path, .parallel _ steps => (steps[i]?.map (before path)).getD []
  | _ :: _, .call _ => []

theorem before_sequence {name : String} {steps : List Step} {i : Nat} {s : Step}
    (hs : steps[i]? = some s) (path : List Nat) :
    (sequence name steps).before (i :: path)
      = postOrderAll (steps.take i) ++ s.before path := by
  rw [before, hs]
  rfl

theorem postOrderAll_subset {steps ts : List Step} (h : ∀ s ∈ steps, s.postOrder ⊆ ts) :
    postOrderAll steps ⊆ ts := by
  induction steps with
  | nil => exact List.nil_subset ts
  | cons s rest ih =>
      obtain ⟨hs, hrest⟩ := List.forall_mem_cons.mp h
      rw [postOrderAll]
      exact List.append_subset.mpr ⟨hs, ih hrest⟩

theorem postOrder_subset_walk (s : Step) : s.postOrder ⊆ s.walk := by
  have hnode : ∀ {node : Step} {steps : List Step}, (∀ s ∈ steps, s.postOrder ⊆ s.walk) →
      postOrderAll steps ++ [node] ⊆ node :: walkAll steps := by
    intro node steps ih
    rw [walkAll_eq_flatMap]
    refine List.append_subset.mpr ⟨postOrderAll_subset fun s hs => ?_, by simp⟩
    exact fun t ht => List.mem_cons_of_mem _ (List.mem_flatMap.mpr ⟨s, hs, ih s hs ht⟩)
  induction s with
  | call c => exact List.Subset.refl _
  | sequence name steps ih => exact hnode ih
  | parallel name steps ih => exact hnode ih

theorem before_parallel {name : String} {steps : List Step} {i : Nat} {s : Step}
    (hs : steps[i]? = some s) (path : List Nat) :
    (parallel name steps).before (i :: path) = s.before path := by
  rw [before, hs]
  rfl

/-- Only steps of the tree are seen. -/
theorem before_subset_walk (path : List Nat) (s : Step) : s.before path ⊆ s.walk := by
  induction path generalizing s with
  | nil => exact List.nil_subset _
  | cons i path ih =>
      have hchild : ∀ {steps : List Step}, (steps[i]?.map (before path)).getD [] ⊆ walkAll steps := by
        intro steps
        rw [walkAll_eq_flatMap]
        cases hs : steps[i]? with
        | none => exact List.nil_subset _
        | some t => exact fun u hu =>
            List.mem_flatMap.mpr ⟨t, List.mem_of_getElem? hs, ih t hu⟩
      cases s using Step.casesOn with
      | call c => exact List.nil_subset _
      | sequence name steps =>
          refine List.subset_cons_of_subset _ (List.append_subset.mpr ⟨?_, hchild⟩)
          refine postOrderAll_subset fun t ht => ?_
          rw [walkAll_eq_flatMap]
          exact fun u hu => List.mem_flatMap.mpr
            ⟨t, List.mem_of_mem_take ht, t.postOrder_subset_walk hu⟩
      | parallel name steps => exact List.subset_cons_of_subset _ hchild

theorem at?_cons {parent s : Step} {i : Nat} (hs : parent.children[i]? = some s)
    (path : List Nat) : parent.at? (i :: path) = s.at? path := by
  rw [at?, hs]
  rfl

/-! ## Names -/

/-- Whether a step goes by a name: its own, or that of the agent that it
calls. -/
def isKnownAs (name : String) : Step → Bool
  | .call c => c.name == name || c.agent == name
  | .sequence own _ => own == name
  | .parallel own _ => own == name

/-- The last of some steps that goes by a name. -/
def lastKnownAs (name : String) (steps : List Step) : Option Step :=
  (steps.filter (isKnownAs name)).getLast?

theorem lastKnownAs_append (name : String) (ss ts : List Step) :
    lastKnownAs name (ss ++ ts) = (lastKnownAs name ts).or (lastKnownAs name ss) := by
  rw [lastKnownAs, List.filter_append, List.getLast?_append]
  rfl

theorem lastKnownAs_singleton (name : String) (s : Step) :
    lastKnownAs name [s] = if s.isKnownAs name then some s else none := by
  by_cases h : s.isKnownAs name = true <;> simp [lastKnownAs, h]

/-- A step that is the only one to go by a name is found under it. -/
theorem lastKnownAs_eq_some {name : String} {steps : List Step} {s : Step} (hs : s ∈ steps)
    (hknown : s.isKnownAs name = true)
    (honly : ∀ t ∈ steps, t.isKnownAs name = true → t = s) :
    lastKnownAs name steps = some s := by
  have hmem : s ∈ steps.filter (isKnownAs name) := List.mem_filter.mpr ⟨hs, hknown⟩
  obtain ⟨t, ht⟩ := Option.isSome_iff_exists.mp
    (List.getLast?_isSome.mpr (List.ne_nil_of_mem hmem))
  obtain ⟨htmem, htknown⟩ := List.mem_filter.mp (List.mem_of_getLast? ht)
  rw [lastKnownAs, ht, honly t htmem htknown]

/-! ## Values -/

mutual

/-- The value of a step, when every call has got the given reply. -/
def value (reply : String → String) : Step → Json
  | .call c => .string (reply c.name)
  | .sequence _ steps => (values reply steps).getLast?.getD .null
  | .parallel _ steps => .array (values reply steps)

def values (reply : String → String) : List Step → List Json
  | [] => []
  | s :: rest => value reply s :: values reply rest

end

theorem values_eq_map (reply : String → String) (steps : List Step) :
    values reply steps = steps.map (value reply) := by
  induction steps with
  | nil => rfl
  | cons s rest ih => rw [values, ih, List.map_cons]

/-- A lookup tells the step at a path what it can see: under a name the text
that shows the value of the last step that goes by it, or else of what the
whole tree sees under it, and nothing if there is neither. -/
def Tells (root : Step) (path : List Nat) (outer : String → Option Json)
    (reply : String → String) (lookup : String → Option String) : Prop :=
  ∀ name, Option.Rel Json.Shows
    (((lastKnownAs name (root.before path)).map (value reply)).or (outer name)) (lookup name)

end Ensemble.Step
