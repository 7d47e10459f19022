import Ensemble.Plan.Step
import Mathlib.Data.List.Nodup

/-!
# Trees of steps

Induction on a step, with the steps below a node as one list, and the
calls of a tree in order.
-/

namespace Ensemble.Step

/-- Induction on a step: a node has all its children below it. -/
@[induction_eliminator]
theorem ind {motive : Step → Prop} (call : ∀ c, motive (.call c))
    (sequence : ∀ name steps, (∀ s ∈ steps, motive s) → motive (.sequence name steps))
    (parallel : ∀ name steps, (∀ s ∈ steps, motive s) → motive (.parallel name steps))
    (s : Step) : motive s :=
  s.rec (motive_1 := motive) (motive_2 := fun steps => ∀ s ∈ steps, motive s) call sequence
    parallel (by simp)
    (fun s rest hs hrest t ht => (List.mem_cons.mp ht).elim (fun heq => heq ▸ hs) (hrest t))

/-- The calls of a tree, in the order in which a reader meets them. -/
def calls (s : Step) : List Call := s.walk.filterMap Step.call?

theorem walkAll_eq_flatMap (steps : List Step) : walkAll steps = steps.flatMap walk := by
  induction steps with
  | nil => rfl
  | cons s rest ih => rw [walkAll, ih, List.flatMap_cons]

theorem calls_sequence (name : String) (steps : List Step) :
    (sequence name steps).calls = steps.flatMap calls := by
  rw [calls, walk, walkAll_eq_flatMap]
  exact List.filterMap_flatMap ..

theorem calls_parallel (name : String) (steps : List Step) :
    (parallel name steps).calls = steps.flatMap calls := by
  rw [calls, walk, walkAll_eq_flatMap]
  exact List.filterMap_flatMap ..

/-- What is below a step of a tree is below its root. -/
theorem walk_subset_of_mem {s t : Step} (ht : t ∈ s.walk) : t.walk ⊆ s.walk := by
  have hbelow : ∀ {steps : List Step}, (∀ s ∈ steps, t ∈ s.walk → t.walk ⊆ s.walk) →
      t ∈ walkAll steps → t.walk ⊆ walkAll steps := by
    intro steps hsteps hmem u hu
    rw [walkAll_eq_flatMap, List.mem_flatMap] at hmem ⊢
    obtain ⟨s, hs, hmem⟩ := hmem
    exact ⟨s, hs, hsteps s hs hmem hu⟩
  induction s with
  | call c =>
      obtain rfl := List.mem_singleton.mp ht
      exact List.Subset.refl _
  | sequence name steps ih =>
      rcases List.mem_cons.mp ht with rfl | ht
      · exact List.Subset.refl _
      · exact List.subset_cons_of_subset _ (hbelow ih ht)
  | parallel name steps ih =>
      rcases List.mem_cons.mp ht with rfl | ht
      · exact List.Subset.refl _
      · exact List.subset_cons_of_subset _ (hbelow ih ht)

theorem calls_subset_of_mem {s t : Step} (ht : t ∈ s.walk) : t.calls ⊆ s.calls := by
  intro c hc
  obtain ⟨u, hu, hcall⟩ := List.mem_filterMap.mp hc
  exact List.mem_filterMap.mpr ⟨u, walk_subset_of_mem ht hu, hcall⟩

/-- The names of calls. -/
def callNames (steps : List Step) : List String := (steps.flatMap calls).map Call.name

theorem callNames_cons (s : Step) (rest : List Step) :
    callNames (s :: rest) = s.calls.map Call.name ++ callNames rest := by
  rw [callNames, List.flatMap_cons, List.map_append]
  rfl

theorem mem_callNames {steps : List Step} {s : Step} (hs : s ∈ steps) {name : String}
    (hname : name ∈ s.calls.map Call.name) : name ∈ callNames steps := by
  obtain ⟨c, hc, rfl⟩ := List.mem_map.mp hname
  exact List.mem_map_of_mem (List.mem_flatMap.mpr ⟨s, hs, hc⟩)

theorem countP_name (cs : List Call) (name : String) :
    cs.countP (fun c => c.name == name) = (cs.map Call.name).count name := by
  rw [List.count, List.countP_map]
  rfl

/-- If no two calls have one name, those of a single step do not. -/
theorem nodup_of_callNames {steps : List Step} (hnodup : (callNames steps).Nodup) {s : Step}
    (hs : s ∈ steps) : (s.calls.map Call.name).Nodup := by
  rw [callNames, List.map_flatMap] at hnodup
  exact (List.nodup_flatMap.mp hnodup).1 s hs

/-- If no two calls have one name, a name is below one child only. -/
theorem eq_of_mem_callNames {steps : List Step} (hnodup : (callNames steps).Nodup) {i j : Nat}
    {s t : Step} (hs : steps[i]? = some s) (ht : steps[j]? = some t) {name : String}
    (hname : name ∈ s.calls.map Call.name) (hname' : name ∈ t.calls.map Call.name) : i = j := by
  rw [callNames, List.map_flatMap] at hnodup
  have hdisjoint := List.pairwise_iff_getElem.mp (List.nodup_flatMap.mp hnodup).2
  obtain ⟨hi, rfl⟩ := List.getElem?_eq_some_iff.mp hs
  obtain ⟨hj, rfl⟩ := List.getElem?_eq_some_iff.mp ht
  rcases Nat.lt_trichotomy i j with hij | hij | hij
  · exact absurd hname' (hdisjoint i j hi hj hij hname)
  · exact hij
  · exact absurd hname (hdisjoint j i hj hi hij hname')

/-- The names of calls are among those of steps. -/
theorem callNames_sublist (s : Step) :
    (s.calls.map Call.name).Sublist (s.walk.map Step.name) := by
  rw [calls]
  induction s.walk with
  | nil => exact List.Sublist.refl _
  | cons t rest ih =>
      cases t with
      | call c => exact ih.cons_cons c.name
      | sequence name steps => exact ih.cons name
      | parallel name steps => exact ih.cons name

end Ensemble.Step
