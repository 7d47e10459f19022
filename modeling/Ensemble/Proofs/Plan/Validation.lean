import Ensemble.Proofs.Plan.Tree

/-!
# Valid plans

A plan is accepted exactly if no two of its steps have one name and no node
is empty (`validate_eq_ok_iff`). By its name a step is then found again, at
its own place and no other (`find?_name`).

A step is at fault if a step before it has its name, and if it is an empty
node; one that is both is told to repeat a name (`Step.Fault`). Of all
faults of a plan `Plan.validate` tells the first (`first_fault_told`). To
find it one need not stop there. A `Survey` visits every step of a tree, a
node before those below it, and keeps the names it has met and the first
fault. `Survey.Tracks` is what it knows of the steps behind it: a visit
keeps it up (`Tracks.visit`), and so do those of a whole tree
(`Tracks.inspect`).
-/

namespace Ensemble

namespace Step

/-- A node that has no steps below it. -/
def IsEmptyNode (s : Step) : Prop := s.isCall = false ∧ s.children = []

theorem isEmptyNode_iff (s : Step) :
    s.IsEmptyNode ↔ (!s.isCall && s.children.isEmpty) = true := by
  simp [IsEmptyNode]

/-- Among steps with different names the first one of a name is the only one. -/
theorem find?_name {steps : List Step} (hnodup : (steps.map name).Nodup) {i : Nat} {s : Step}
    (hi : steps[i]? = some s) :
    steps.find? (fun t => t.name == s.name) = some s ∧
      steps.findIdx? (fun t => t.name == s.name) = some i := by
  obtain ⟨hlt, rfl⟩ := List.getElem?_eq_some_iff.mp hi
  have hother : ∀ j (hj : j < i), (steps[j].name == steps[i].name) = false := by
    intro j hj
    refine beq_eq_false_iff_ne.mpr fun heq => Nat.ne_of_lt hj ?_
    have hjlt : j < (steps.map name).length := by
      rw [List.length_map]
      omega
    have hilt : i < (steps.map name).length := by rwa [List.length_map]
    have hnames : (steps.map name)[j] = (steps.map name)[i] := by simpa using heq
    exact hnodup.getElem_inj_iff.mp hnames
  constructor
  · refine List.find?_eq_some_iff_getElem.mpr ⟨beq_self_eq_true _, i, hlt, rfl, fun j hj => ?_⟩
    simpa using hother j hj
  · refine List.findIdx?_eq_some_iff_getElem.mpr ⟨hlt, beq_self_eq_true _, fun j hj => ?_⟩
    simpa using hother j hj

/-! ## Faults -/

/-- What is wrong with a step that comes after others. -/
inductive Fault (before : List Step) (s : Step) : Invalid → Prop
  | repeated (taken : s.name ∈ before.map name) :
      Fault before s (.invalidDefinition s!"duplicate step name {s.name}")
  | empty (fresh : s.name ∉ before.map name) (empty : s.IsEmptyNode) :
      Fault before s (.emptyComposite s.kind s.name)

/-- Steps with different names, no node among them empty. -/
structure Faultless (steps : List Step) : Prop where
  names : (steps.map name).Nodup
  nodes : ∀ s ∈ steps, ¬s.IsEmptyNode

/-- A fault of a step, and none in the steps before it. -/
def FirstFault (steps : List Step) (e : Invalid) : Prop :=
  ∃ before s after, steps = before ++ s :: after ∧ Faultless before ∧ Fault before s e

variable {steps before : List Step} {s : Step} {e : Invalid}

theorem faultless_iff :
    Faultless steps ↔ (steps.map name).Nodup ∧ ∀ s ∈ steps, ¬s.IsEmptyNode :=
  ⟨fun ⟨hnames, hnodes⟩ => ⟨hnames, hnodes⟩, fun ⟨hnames, hnodes⟩ => ⟨hnames, hnodes⟩⟩

theorem faultless_nil : Faultless [] := ⟨List.nodup_nil, by simp⟩

theorem faultless_concat_iff : Faultless (steps ++ [s]) ↔
    Faultless steps ∧ s.name ∉ steps.map name ∧ ¬s.IsEmptyNode := by
  constructor
  · rintro ⟨hnames, hnodes⟩
    rw [List.map_append, List.map_singleton, List.nodup_append] at hnames
    obtain ⟨hnames, -, hdisjoint⟩ := hnames
    refine ⟨⟨hnames, fun t ht => hnodes t (List.mem_append_left _ ht)⟩, fun hmem => ?_,
      hnodes s (List.mem_append_right _ (List.mem_singleton_self s))⟩
    exact hdisjoint _ hmem _ (List.mem_singleton_self _) rfl
  · rintro ⟨⟨hnames, hnodes⟩, hfresh, hnode⟩
    refine ⟨?_, List.forall_mem_append.mpr ⟨hnodes, by simpa using hnode⟩⟩
    rw [List.map_append, List.map_singleton, List.nodup_append]
    refine ⟨hnames, List.nodup_singleton _, fun n hn m hm => ?_⟩
    obtain rfl := List.mem_singleton.mp hm
    exact fun heq => hfresh (heq ▸ hn)

theorem Faultless.left {more : List Step} (h : Faultless (steps ++ more)) : Faultless steps := by
  obtain ⟨hnames, hnodes⟩ := h
  rw [List.map_append] at hnames
  exact ⟨(List.nodup_append.mp hnames).1, fun t ht => hnodes t (List.mem_append_left _ ht)⟩

theorem Fault.not_faultless (hfault : Fault before s e) {after : List Step} :
    ¬Faultless (before ++ s :: after) := by
  rw [List.append_cons]
  intro h
  obtain ⟨-, hfresh, hnode⟩ := faultless_concat_iff.mp h.left
  cases hfault with
  | repeated taken => exact hfresh taken
  | empty _ empty => exact hnode empty

theorem Fault.unique {e' : Invalid} (he : Fault before s e) (he' : Fault before s e') : e = e' := by
  cases he with
  | repeated taken =>
      cases he' with
      | repeated => rfl
      | empty fresh => exact absurd taken fresh
  | empty fresh =>
      cases he' with
      | repeated taken => exact absurd taken fresh
      | empty => rfl

theorem FirstFault.not_faultless (hfault : FirstFault steps e) : ¬Faultless steps := by
  obtain ⟨before, s, after, rfl, -, hs⟩ := hfault
  exact hs.not_faultless

theorem FirstFault.append (hfault : FirstFault steps e) (more : List Step) :
    FirstFault (steps ++ more) e := by
  obtain ⟨before, s, after, rfl, hbefore, hs⟩ := hfault
  exact ⟨before, s, after ++ more, by simp, hbefore, hs⟩

/-- No faultless steps go on behind a fault. -/
theorem Fault.eq_nil {between after rest : List Step} (hs : Fault before s e)
    (hfaultless : Faultless (before ++ between)) (hsplit : s :: after = between ++ rest) :
    between = [] := by
  cases between with
  | nil => rfl
  | cons t between =>
      obtain ⟨rfl, -⟩ := List.cons.inj hsplit
      exact absurd hfaultless hs.not_faultless

/-- There is one first fault: the later one of two would come after a fault. -/
theorem FirstFault.unique {e' : Invalid} (he : FirstFault steps e) (he' : FirstFault steps e') :
    e = e' := by
  obtain ⟨before, s, after, rfl, hbefore, hs⟩ := he
  obtain ⟨before', s', after', heq, hbefore', hs'⟩ := he'
  rcases List.append_eq_append_iff.mp heq with ⟨between, rfl, hsplit⟩ | ⟨between, rfl, hsplit⟩
  · obtain rfl := hs.eq_nil hbefore' hsplit
    obtain ⟨rfl, -⟩ := List.cons.inj hsplit
    rw [List.append_nil] at hs'
    exact hs.unique hs'
  · obtain rfl := hs'.eq_nil hbefore hsplit
    obtain ⟨rfl, -⟩ := List.cons.inj hsplit
    rw [List.append_nil] at hs
    exact hs.unique hs'

end Step

open Step

/-! ## Surveys -/

/-- What is known of the steps visited so far. -/
structure Survey where
  names : List String
  result : Except Invalid Unit

namespace Survey

def start : Survey := { names := [], result := .ok () }

/-- After a fault nothing else counts. -/
def visit (v : Survey) (s : Step) : Survey :=
  match v.result with
  | .error _ => v
  | .ok () =>
    if v.names.contains s.name then
      { v with result := .error (.invalidDefinition s!"duplicate step name {s.name}") }
    else
      { names := s.name :: v.names
        result :=
          if !s.isCall && s.children.isEmpty then .error (.emptyComposite s.kind s.name)
          else .ok () }

mutual

/-- Visits a tree, a step before those under it. -/
def inspect (v : Survey) : Step → Survey
  | .call c => v.visit (.call c)
  | .sequence name steps => (v.visit (.sequence name steps)).inspectAll steps
  | .parallel name steps => (v.visit (.parallel name steps)).inspectAll steps

def inspectAll (v : Survey) : List Step → Survey
  | [] => v
  | s :: rest => (v.inspect s).inspectAll rest

end

variable {v : Survey} {steps : List Step} {s : Step} {e : Invalid}

theorem visit_of_error (h : v.result = .error e) (s : Step) : v.visit s = v := by
  rw [visit, h]

theorem foldl_visit_of_error (h : v.result = .error e) (steps : List Step) :
    steps.foldl visit v = v := by
  induction steps with
  | nil => rfl
  | cons s rest ih => rw [List.foldl_cons, visit_of_error h, ih]

/-- What is wrong with a step is told in its visit, if nothing was before. -/
theorem visit_cases (h : v.result = .ok ()) (hnames : ∀ n, n ∈ v.names ↔ n ∈ steps.map name) :
    (∃ e, Fault steps s e ∧ (v.visit s).result = .error e) ∨
      s.name ∉ steps.map name ∧ ¬s.IsEmptyNode ∧
        v.visit s = { names := s.name :: v.names, result := .ok () } := by
  rw [visit, h]
  by_cases htaken : s.name ∈ steps.map name
  · have hmet : v.names.contains s.name = true := List.contains_iff_mem.mpr ((hnames _).mpr htaken)
    exact .inl ⟨_, .repeated htaken, by simp only [hmet, if_true]⟩
  have hmet : ¬v.names.contains s.name = true := fun hmem =>
    htaken ((hnames _).mp (List.contains_iff_mem.mp hmem))
  by_cases hempty : s.IsEmptyNode
  · refine .inl ⟨_, .empty htaken hempty, ?_⟩
    simp only [if_neg hmet, if_pos (s.isEmptyNode_iff.mp hempty)]
  · refine .inr ⟨htaken, hempty, ?_⟩
    simp only [if_neg hmet, if_neg (mt s.isEmptyNode_iff.mpr hempty)]

/-- What a survey knows of the steps that it has visited: their names, if
nothing is wrong with them, and else their first fault. -/
inductive Tracks (steps : List Step) (v : Survey) : Prop
  | clear (faultless : Faultless steps) (names : ∀ n, n ∈ v.names ↔ n ∈ steps.map name)
      (result : v.result = .ok ())
  | stuck {e : Invalid} (fault : FirstFault steps e) (result : v.result = .error e)

theorem tracks_start : Tracks [] start := .clear faultless_nil (fun _ => Iff.rfl) rfl

/-- One visit keeps track. -/
theorem Tracks.visit (h : Tracks steps v) (s : Step) : Tracks (steps ++ [s]) (v.visit s) := by
  cases h with
  | stuck fault result =>
      rw [visit_of_error result]
      exact .stuck (fault.append [s]) result
  | clear faultless names result =>
      rcases visit_cases (s := s) result names with ⟨e, hfault, htold⟩ | ⟨hfresh, hnode, heq⟩
      · exact .stuck ⟨steps, s, [], rfl, faultless, hfault⟩ htold
      · rw [heq]
        refine .clear (faultless_concat_iff.mpr ⟨faultless, hfresh, hnode⟩) (fun n => ?_) rfl
        rw [List.mem_cons, names, List.map_append, List.mem_append, or_comm]
        simp

theorem Tracks.foldl (h : Tracks steps v) (more : List Step) :
    Tracks (steps ++ more) (more.foldl Survey.visit v) := by
  induction more generalizing steps v with
  | nil =>
      rw [List.append_nil]
      exact h
  | cons s rest ih =>
      rw [List.append_cons]
      exact ih (h.visit s)

/-- A survey of a tree visits what `Step.walk` lists. -/
theorem inspect_eq_foldl (v : Survey) (s : Step) : v.inspect s = s.walk.foldl visit v := by
  have hall : ∀ steps : List Step,
      (∀ s ∈ steps, ∀ v : Survey, v.inspect s = s.walk.foldl visit v) →
        ∀ v : Survey, v.inspectAll steps = (walkAll steps).foldl visit v := by
    intro steps hsteps
    induction steps with
    | nil => exact fun v => rfl
    | cons s rest ih =>
        intro v
        rw [inspectAll, walkAll, List.foldl_append, ← hsteps s (List.mem_cons_self ..)]
        exact ih (fun t ht => hsteps t (List.mem_cons_of_mem _ ht)) _
  induction s generalizing v with
  | call c => rfl
  | sequence name steps ih => exact hall steps ih _
  | parallel name steps ih => exact hall steps ih _

/-- A survey of a whole tree keeps track of its steps. -/
theorem Tracks.inspect (h : Tracks steps v) (s : Step) :
    Tracks (steps ++ s.walk) (v.inspect s) := by
  rw [inspect_eq_foldl]
  exact h.foldl s.walk

theorem Tracks.result_eq_ok_iff (h : Tracks steps v) : v.result = .ok () ↔ Faultless steps := by
  cases h with
  | clear faultless _ result => exact iff_of_true result faultless
  | stuck fault result => exact iff_of_false (by simp [result]) fault.not_faultless

theorem Tracks.result_eq_error_iff (h : Tracks steps v) :
    v.result = .error e ↔ FirstFault steps e := by
  cases h with
  | clear faultless _ result =>
      exact iff_of_false (by simp [result]) fun hfault => hfault.not_faultless faultless
  | stuck fault result =>
      rw [result]
      constructor
      · intro heq
        exact Except.error.inj heq ▸ fault
      · intro hfault
        exact congrArg _ (fault.unique hfault)

end Survey

namespace Plan

/-- What stops at the first fault finds what a survey of all steps finds. -/
theorem validateFrom_eq_result (seen : List String) (steps : List Step) :
    validateFrom seen steps
      = (steps.foldl Survey.visit { names := seen, result := .ok () }).result := by
  induction steps generalizing seen with
  | nil => rfl
  | cons s rest ih =>
      rw [validateFrom, List.foldl_cons, Survey.visit]
      by_cases hmet : seen.contains s.name = true
      · simp only [if_pos hmet]
        rw [Survey.foldl_visit_of_error rfl]
      by_cases hempty : (!s.isCall && s.children.isEmpty) = true
      · simp only [if_neg hmet, if_pos hempty]
        rw [Survey.foldl_visit_of_error rfl]
      · simp only [if_neg hmet, if_neg hempty]
        exact ih _

theorem validate_eq_result (p : Plan) : p.validate = (Survey.start.inspect p.root).result := by
  rw [validate, validateFrom_eq_result, Survey.inspect_eq_foldl]
  rfl

theorem tracks_inspect (p : Plan) : (Survey.start.inspect p.root).Tracks p.root.walk :=
  Survey.tracks_start.inspect p.root

/-- A plan is valid exactly if its names differ and no node is empty. -/
theorem validate_eq_ok_iff {p : Plan} :
    p.validate = .ok () ↔
      (p.root.walk.map Step.name).Nodup ∧ ∀ s ∈ p.root.walk, ¬s.IsEmptyNode := by
  rw [validate_eq_result, p.tracks_inspect.result_eq_ok_iff, faultless_iff]

/-- **A plan is told its first fault.** Of any tree of steps: it is accepted
exactly if its steps have different names and no node among them is empty.
It is refused exactly for the first step, a node before those below it, that
repeats the name of a step before it or, if it repeats none, is an empty
node. A survey that goes on to the last step tells the same. -/
theorem first_fault_told (p : Plan) :
    (p.validate = .ok () ↔
        (p.root.walk.map Step.name).Nodup ∧ ∀ s ∈ p.root.walk, ¬s.IsEmptyNode) ∧
      (∀ e, p.validate = .error e ↔ FirstFault p.root.walk e) ∧
      p.validate = (Survey.start.inspect p.root).result := by
  refine ⟨validate_eq_ok_iff, fun e => ?_, p.validate_eq_result⟩
  rw [validate_eq_result]
  exact p.tracks_inspect.result_eq_error_iff

/-- An empty node that repeats a name is told so. -/
example : (ofRoot "twice" (.sequence "a" [.parallel "a" []])).validate
    = .error (.invalidDefinition "duplicate step name a") := rfl

end Plan

end Ensemble
