import Ensemble.Proofs.Compile.Steps
import Ensemble.Proofs.Plan.Validation
import Mathlib.Data.List.Nodup

/-!
# Names of compiled steps

The name of a compiled step begins with the names of the nodes above it.
What follows the name of a node is a slash, the place of a child, and a
colon, so two steps of a plan never have the same name
(`compiled_names_nodup`). Since no compiled node is empty either, compiled
plans are valid, and a name leads to its step (`compiled_names_identify`).
-/

namespace Ensemble

/-! ## Places -/

/-- Decimal digits that are followed by a colon say which number they are. -/
theorem place_injective {i j : Nat} {xs ys : List Char}
    (h : Nat.toDigits 10 i ++ ':' :: xs = Nat.toDigits 10 j ++ ':' :: ys) : i = j := by
  have hcolon : ∀ n : Nat, ∀ c ∈ Nat.toDigits 10 n, (c != ':') = true := by
    intro n c hc
    have hdigit := Nat.isDigit_of_mem_toDigits (by decide) (by decide) hc
    rw [bne_iff_ne]
    rintro rfl
    exact absurd hdigit (by decide)
  have htake : ∀ (n : Nat) (xs : List Char),
      (Nat.toDigits 10 n ++ ':' :: xs).takeWhile (· != ':') = Nat.toDigits 10 n := by
    intro n xs
    rw [List.takeWhile_append_of_pos (hcolon n), List.takeWhile_cons_of_neg (by decide),
      List.append_nil]
  have hdigits : Nat.toDigits 10 i = Nat.toDigits 10 j := by
    rw [← htake i xs, h, htake j ys]
  calc i = Nat.ofDigitChars 10 (Nat.toDigits 10 i) 0 := Nat.ofDigitChars_ten_toDigits.symm
    _ = Nat.ofDigitChars 10 (Nat.toDigits 10 j) 0 := by rw [hdigits]
    _ = j := Nat.ofDigitChars_ten_toDigits

namespace Compile

/-- The name starts with another one. -/
def Extends (name base : String) : Prop := base.toList <+: name.toList

theorem childName_toList (path : String) (index : Nat) (n : Node) :
    (childName path index n).toList
      = path.toList ++ '/' :: (Nat.toDigits 10 index ++ ':' :: (label n).toList) := by
  have hname : childName path index n = path ++ "/" ++ Nat.repr index ++ ":" ++ label n := rfl
  simp [hname, String.toList_append]

theorem extends_trans {name path base : String} (h : Extends name path) (h' : Extends path base) :
    Extends name base := List.IsPrefix.trans h' h

theorem childName_extends (path : String) (index : Nat) (n : Node) :
    Extends (childName path index n) path := by
  rw [Extends, childName_toList]
  exact List.prefix_append ..

/-- A name below a child is not that of the node. -/
theorem ne_of_extends_child {name path : String} {index : Nat} {n : Node}
    (h : Extends name (childName path index n)) : name ≠ path := by
  rintro rfl
  have hlen := h.length_le
  rw [childName_toList, List.length_append, List.length_cons] at hlen
  omega

/-- A name below a child is not below another one. -/
theorem place_of_extends {name path : String} {i j : Nat} {n m : Node}
    (hi : Extends name (childName path i n)) (hj : Extends name (childName path j m)) : i = j := by
  obtain ⟨xs, hxs⟩ := hi
  obtain ⟨ys, hys⟩ := hj
  rw [childName_toList, List.append_assoc] at hxs hys
  have heq := List.append_cancel_left (hxs.trans hys.symm)
  simp only [List.cons_append, List.append_assoc, List.cons.injEq, true_and] at heq
  exact place_injective heq

/-! ## Names of a tree -/

/-- The names of a tree differ and start with the name of its root. -/
def NamesFrom (name : String) (t : Step) : Prop :=
  (t.walk.map Step.name).Nodup ∧ ∀ u ∈ t.walk, Extends u.name name

/-- The names below a node differ if those below its children do. -/
theorem namesFrom_children {path : String} {nodes : List Node} {ts : List Step}
    (hlen : ts.length = nodes.length)
    (hall : ∀ (i : Nat) (n : Node) (t : Step), nodes[i]? = some n → ts[i]? = some t →
      NamesFrom (childName path i n) t) :
    (((ts.flatMap Step.walk).map Step.name).Nodup ∧
      ∀ u ∈ ts.flatMap Step.walk, u.name ≠ path ∧ Extends u.name path) := by
  have hchild : ∀ i (hi : i < ts.length), ∃ n, nodes[i]? = some n ∧
      NamesFrom (childName path i n) ts[i] := by
    intro i hi
    have hn := List.getElem?_eq_getElem (hlen ▸ hi)
    exact ⟨_, hn, hall i _ _ hn (List.getElem?_eq_getElem hi)⟩
  constructor
  · rw [List.map_flatMap, List.nodup_flatMap]
    constructor
    · intro t ht
      obtain ⟨i, hi, rfl⟩ := List.getElem_of_mem ht
      obtain ⟨n, -, hnames⟩ := hchild i hi
      exact hnames.1
    · refine List.pairwise_iff_getElem.mpr fun i j hi hj hij => ?_
      obtain ⟨n, -, hn⟩ := hchild i hi
      obtain ⟨m, -, hm⟩ := hchild j hj
      intro name hname hname'
      obtain ⟨u, hu, rfl⟩ := List.mem_map.mp hname
      obtain ⟨v, hv, heq⟩ := List.mem_map.mp hname'
      exact Nat.ne_of_lt hij (place_of_extends (hn.2 u hu) (heq ▸ hm.2 v hv))
  · intro u hu
    obtain ⟨t, ht, hut⟩ := List.mem_flatMap.mp hu
    obtain ⟨i, hi, rfl⟩ := List.getElem_of_mem ht
    obtain ⟨n, -, hnames⟩ := hchild i hi
    exact ⟨ne_of_extends_child (hnames.2 u hut),
      extends_trans (hnames.2 u hut) (childName_extends path i n)⟩

/-- The names of a compiled tree. -/
theorem step_namesFrom {s : Scope} {name : String} {n : Node} {t : Step}
    (h : step s name n = .ok t) : NamesFrom name t := by
  have hnode : ∀ {path : String} {root : Step} (ts : List Step), root.name = path →
      root.walk = root :: ts.flatMap Step.walk →
      (((ts.flatMap Step.walk).map Step.name).Nodup ∧
        ∀ u ∈ ts.flatMap Step.walk, u.name ≠ path ∧ Extends u.name path) →
      NamesFrom path root := by
    rintro path root ts rfl hwalk ⟨hnodup, hbelow⟩
    rw [NamesFrom, hwalk, List.map_cons]
    refine ⟨List.nodup_cons.mpr ⟨fun hmem => ?_, hnodup⟩, fun u hu => ?_⟩
    · obtain ⟨u, hu, heq⟩ := List.mem_map.mp hmem
      exact (hbelow u hu).1 heq
    · rcases List.mem_cons.mp hu with rfl | hu
      · exact List.prefix_refl _
      · exact (hbelow u hu).2
  refine step_ind (motive := fun name _ t => NamesFrom name t) ?_ ?_ ?_ h
  · intro name agent input _
    exact hnode [] rfl rfl ⟨List.nodup_nil, by simp⟩
  · intro name nodes ts _ hlen hall
    exact hnode ts rfl (by rw [Step.walk, Step.walkAll_eq_flatMap]) (namesFrom_children hlen hall)
  · intro name nodes ts _ hlen hall
    exact hnode ts rfl (by rw [Step.walk, Step.walkAll_eq_flatMap]) (namesFrom_children hlen hall)

/-- The steps of a compiled plan have different names. -/
theorem compiled_names_nodup {master : MasterAgent} {key : Option String} {inputs : ResolvedInputs}
    {injectsAll : Bool} {plan : Plan} (h : compile master key inputs injectsAll = .ok plan) :
    (plan.root.walk.map Step.name).Nodup := by
  obtain ⟨f, -, hroot, -⟩ := compile_eq_ok h
  exact (step_namesFrom hroot).1

/-! ## Valid plans -/

/-- No node of a compiled tree is empty. -/
theorem step_no_empty_node {s : Scope} {name : String} {n : Node} {t : Step}
    (h : step s name n = .ok t) : ∀ u ∈ t.walk, ¬u.IsEmptyNode := by
  have hnode : ∀ {nodes : List Node} {ts : List Step} {root : Step}, nodes ≠ [] →
      ts.length = nodes.length →
      (∀ (i : Nat) (n : Node) (t : Step), nodes[i]? = some n → ts[i]? = some t →
        ∀ u ∈ t.walk, ¬u.IsEmptyNode) →
      root.children = ts → root.walk = root :: ts.flatMap Step.walk →
      ∀ u ∈ root.walk, ¬u.IsEmptyNode := by
    intro nodes ts root hne hlen hall hchildren hwalk u hu
    rw [hwalk] at hu
    rcases List.mem_cons.mp hu with rfl | hu
    · rintro ⟨-, hempty⟩
      rw [hchildren] at hempty
      rw [hempty] at hlen
      exact hne (List.length_eq_zero_iff.mp hlen.symm)
    · obtain ⟨t, ht, hut⟩ := List.mem_flatMap.mp hu
      obtain ⟨i, n, hn, ht⟩ := exists_child hlen ht
      exact hall i n t hn ht u hut
  refine step_ind (motive := fun _ _ t => ∀ u ∈ t.walk, ¬u.IsEmptyNode) ?_ ?_ ?_ h
  · intro name agent input _ u hu
    obtain rfl := List.mem_singleton.mp hu
    rintro ⟨hcall, -⟩
    cases hcall
  · intro name nodes ts hne hlen hall
    exact hnode hne hlen hall rfl (by rw [Step.walk, Step.walkAll_eq_flatMap])
  · intro name nodes ts hne hlen hall
    exact hnode hne hlen hall rfl (by rw [Step.walk, Step.walkAll_eq_flatMap])

/-- **Names identify steps.** Whatever the flow and its agents are called,
the steps of a compiled plan have different names, the plan is valid, and
the name of a step leads to it and to no other place of the tree. -/
theorem compiled_names_identify {master : MasterAgent} {key : Option String}
    {inputs : ResolvedInputs} {injectsAll : Bool} {plan : Plan}
    (h : compile master key inputs injectsAll = .ok plan) :
    (plan.root.walk.map Step.name).Nodup ∧ plan.validate = .ok () ∧
      ∀ (i : Nat) (s : Step), plan.root.walk[i]? = some s →
        plan.root.find? s.name = some s ∧
          plan.root.walk.findIdx? (fun t => t.name == s.name) = some i := by
  obtain ⟨f, -, hroot, -⟩ := compile_eq_ok h
  have hnodup := (step_namesFrom hroot).1
  exact ⟨hnodup, Plan.validate_eq_ok_iff.mpr ⟨hnodup, step_no_empty_node hroot⟩,
    fun i s hi => Step.find?_name hnodup hi⟩

/-- Agents that are called like steps: the name of a call deep down in one
branch ends like that of another branch. -/
def lookalikes : MasterAgent :=
  let agent (name : String) : AgentConfig := { name, model := "", system := "", tools := [] }
  { id := "", displayName := "", published := true, locale := none, inputs := []
    agents := [agent "a", agent "sequence/0:a", agent "main/0:a"]
    flows := [{ name := "main", code := none
                flow := .parallel
                  [.sequence [.agentCall "a" none, .agentCall "a" none],
                    .agentCall "sequence/0:a" none, .agentCall "main/0:a" none] }]
    resultFormat := "" }

theorem compiled_names_identify_lookalikes :
    ∃ plan, compile lookalikes none .empty true = .ok plan ∧
      plan.root.walk.map Step.name
        = ["main", "main/0:sequence", "main/0:sequence/0:a", "main/0:sequence/1:a",
          "main/1:sequence/0:a", "main/2:main/0:a"] ∧
      plan.validate = .ok () ∧
      ∀ (i : Nat) (s : Step), plan.root.walk[i]? = some s → plan.root.find? s.name = some s := by
  obtain ⟨plan, hplan⟩ : ∃ plan, compile lookalikes none .empty true = .ok plan := ⟨_, rfl⟩
  obtain ⟨-, hvalid, hfind⟩ := compiled_names_identify hplan
  refine ⟨plan, hplan, ?_, hvalid, fun i s hi => (hfind i s hi).1⟩
  obtain rfl := Except.ok.inj hplan
  decide +kernel

end Compile

end Ensemble
