import Ensemble.Proofs.Execution.Answers
import Ensemble.Proofs.Execution.Matching

/-!
# Dropped branches and the log

A call that was on its way when its branch was dropped, or that has crashed,
has started and has not ended. The parallel node that has lost the branch
notes it as left out, under its own name. So by the time a step has ended
with a result, each of its calls that is still open stands at or below a
step that is noted as left out (`step_drops`): nothing ends the call itself.
-/

namespace Ensemble

namespace Step

/-- A call of a tree has a place in it. -/
theorem exists_at {s : Step} {c : Call} (hc : c ∈ s.calls) :
    ∃ path, s.at? path = some (.call c) := by
  induction s with
  | call c' =>
      obtain rfl : c = c' := List.mem_singleton.mp hc
      exact ⟨[], rfl⟩
  | sequence name steps ih =>
      rw [calls_sequence] at hc
      obtain ⟨t, ht, hc⟩ := List.mem_flatMap.mp hc
      obtain ⟨path, hpath⟩ := ih t ht hc
      obtain ⟨i, hi, rfl⟩ := List.getElem_of_mem ht
      exact ⟨i :: path, Option.bind_eq_some_iff.mpr ⟨_, List.getElem?_eq_getElem hi, hpath⟩⟩
  | parallel name steps ih =>
      rw [calls_parallel] at hc
      obtain ⟨t, ht, hc⟩ := List.mem_flatMap.mp hc
      obtain ⟨path, hpath⟩ := ih t ht hc
      obtain ⟨i, hi, rfl⟩ := List.getElem_of_mem ht
      exact ⟨i :: path, Option.bind_eq_some_iff.mpr ⟨_, List.getElem?_eq_getElem hi, hpath⟩⟩

end Step

/-- A call of the given name stands at or below a step of the tree that entries
note as left out. -/
def LeftOutAbove (root : Step) (name : String) (es : List StepLog) : Prop :=
  ∃ path c, root.at? path = some (.call c) ∧ c.name = name ∧
    ∃ t ∈ root.lineage path, StepLog.leftOut t.name ∈ es

section

variable {root child : Step} {name : String} {es es' : List StepLog}

theorem LeftOutAbove.mono (h : LeftOutAbove root name es) (hes : es ⊆ es') :
    LeftOutAbove root name es' := by
  obtain ⟨path, c, hat, hname, t, ht, hmem⟩ := h
  exact ⟨path, c, hat, hname, t, ht, hes hmem⟩

theorem LeftOutAbove.of_child {i : Nat} (hchild : root.children[i]? = some child)
    (h : LeftOutAbove child name es) : LeftOutAbove root name es := by
  obtain ⟨path, c, hat, hname, t, ht, hmem⟩ := h
  refine ⟨i :: path, c, Option.bind_eq_some_iff.mpr ⟨child, hchild, hat⟩, hname, t, ?_, hmem⟩
  rw [Step.lineage_cons hchild]
  exact List.mem_cons_of_mem _ ht

/-- A step that is left out is above all its calls. -/
theorem leftOutAbove_root (hname : name ∈ root.calls.map Call.name)
    (hmem : StepLog.leftOut root.name ∈ es) : LeftOutAbove root name es := by
  obtain ⟨c, hc, rfl⟩ := List.mem_map.mp hname
  obtain ⟨path, hat⟩ := Step.exists_at hc
  refine ⟨path, c, hat, rfl, root, ?_, hmem⟩
  cases path with
  | nil => exact List.mem_singleton_self _
  | cons i path => exact List.mem_cons_self ..

end

/-- A step has started more often than it has ended. -/
def History.IsOpen (name : String) (h : History Act Act.Reply) : Prop :=
  h.count (Act.leaves name) < h.count (Act.enters name)

theorem History.Settled.not_isOpen {h : History Act Act.Reply} (hs : h.Settled) (name : String) :
    ¬h.IsOpen name := by
  unfold IsOpen
  rw [hs.ended name]
  exact Nat.lt_irrefl _

theorem History.IsOpen.of_append {name : String} {h h' : History Act Act.Reply}
    (ho : History.IsOpen name (h ++ h')) : h.IsOpen name ∨ h'.IsOpen name := by
  unfold IsOpen at ho ⊢
  rw [History.count_append, History.count_append] at ho
  omega

/-- What is open in some branches is open in one of them. -/
theorem History.Within.isOpen_below {name : String} {n : Nat} {h : History Act Act.Reply}
    (hwithin : h.Within n) (ho : h.IsOpen name) : ∃ i < n, (h.below i).IsOpen name := by
  unfold IsOpen at ho ⊢
  by_contra hnone
  push Not at hnone
  rw [← hwithin.sum_below, ← hwithin.sum_below] at ho
  exact absurd ho (Nat.not_lt.mpr (Finset.sum_le_sum fun i _ => hnone i i.2))

namespace Execution

variable {r : Registry} {policy : FailurePolicy}

/-! ## Starts -/

theorem enters_of_follows {c : Call} {m : Message} {a : Act} (ha : Follows r c m a)
    (name : String) : a.enters name = false := by
  cases ha with
  | agent find performs => exact (Act.isQuiet_of_logs (logs_of_performs performs) name).1
  | success => rfl
  | count => rfl
  | failure => rfl

/-- A call starts no step but its own. -/
theorem call_starts (c : Call) (scope : Bindings) :
    (call r c scope).All fun a => ∀ name, a.enters name = true → name = c.name := by
  refine call_all r c scope (fun name hname => (eq_of_beq hname).symm)
    (fun _ _ hname => by cases hname) fun m a ha name hname => ?_
  rw [enters_of_follows ha] at hname
  cases hname

/-- A step starts its calls and no others. -/
theorem step_starts (s : Step) (scope : Bindings) :
    (step r s scope).All fun a => ∀ name, a.enters name = true → name ∈ s.calls.map Call.name := by
  refine step_all (fun _ _ hname => by cases hname) s (fun c hc scope => ?_) scope
  refine (call_starts c scope).mono fun a ha name hname => ?_
  rw [ha name hname]
  exact List.mem_map_of_mem hc

/-- What is open in a step was started by one of its calls. -/
theorem mem_calls_of_isOpen {s : Step} {scope : Bindings} {h : History Act Act.Reply}
    {p : Process Act Act.Reply StepOutcome} (hr : (step r s scope).Reaches policy h p)
    {name : String} (ho : h.IsOpen name) : name ∈ s.calls.map Call.name := by
  have hpos : 0 < h.count (Act.enters name) := Nat.lt_of_le_of_lt (Nat.zero_le _) ho
  obtain ⟨x, hx, henters⟩ := List.countP_pos_iff.mp hpos
  exact (step_starts s scope).of_reaches hr x hx name henters

/-! ## Steps that end with a result -/

/-- What is to be shown of a step. -/
def Drops (r : Registry) (policy : FailurePolicy) (s : Step) : Prop :=
  ∀ scope h result, (step r s scope).Ends policy h (.ofResult result) → ∀ name, h.IsOpen name →
    LeftOutAbove s name h.entries

theorem not_isOpen_skipNotes (names : List String) (name : String) :
    ¬History.IsOpen name (.own (skipNotes names)) := (settled_skipNotes names).not_isOpen name

theorem call_drops (r : Registry) (policy : FailurePolicy) (c : Call) :
    Drops r policy (.call c) := by
  intro scope h result he name ho
  rw [step] at he
  rcases Script.ends_prog he with ⟨xs, -, -, hcrash⟩ | ⟨xs, result', later, hcall, rfl, hret⟩
  · cases result <;> cases hcrash
  obtain ⟨rfl, -⟩ := Script.ends_ret hret
  rw [List.append_nil] at ho
  rcases ends_call hcall with ⟨-, -, hout⟩ | ⟨m, ys, zs, answer, -, rfl, hagent, hlast⟩
  · cases hout
  cases answer with
  | none => cases hlast.2
  | some answer => exact absurd ho ((settled_call hagent hlast).not_isOpen name)

/-- The rest of a sequence of children, from the `k`th on. -/
theorem sequence_drops {root : Step} {steps : List Step} {k : Nat}
    (hchildren : ∀ (i : Nat) (s : Step), steps[i]? = some s → root.children[k + i]? = some s)
    (hsteps : ∀ s ∈ steps, Drops r policy s) {node : String} {scope produced : Bindings}
    {last : Json} {h : History Act Act.Reply} {result : Except FlowError StepOutcome}
    (he : (sequence r node scope produced last steps).Ends policy h (.ofResult result))
    {name : String} (ho : h.IsOpen name) : LeftOutAbove root name h.entries := by
  induction steps generalizing k scope produced last h with
  | nil =>
      rw [sequence] at he
      obtain ⟨rfl, -⟩ := Script.ends_ret he
      exact absurd ho (Nat.lt_irrefl 0)
  | cons s rest ih =>
      have hs := hsteps s (List.mem_cons_self ..) scope
      have hchild : root.children[k]? = some s := hchildren 0 s rfl
      rcases ends_sequence_notes he with
        ⟨-, hcrash⟩ | ⟨before, err, rfl, hfirst, -⟩ | ⟨before, later, first, rfl, hfirst, hrest⟩
      · cases result <;> cases hcrash
      · have hopen := ho.of_append.resolve_right (not_isOpen_skipNotes _ name)
        refine ((hs before (.error err) hfirst name hopen).of_child hchild).mono ?_
        rw [History.entries_append]
        exact List.subset_append_left ..
      · rw [History.entries_append]
        rcases ho.of_append with hopen | hopen
        · exact ((hs before (.ok first) hfirst name hopen).of_child hchild).mono
            (List.subset_append_left ..)
        · refine (ih (k := k + 1) (fun i t ht => ?_)
            (fun t ht => hsteps t (List.mem_cons_of_mem _ ht)) hrest hopen).mono
            (List.subset_append_right ..)
          rw [Nat.add_assoc, Nat.add_comm 1 i]
          exact hchildren (i + 1) t ht

/-- A branch that has not come to an end of its own is left out, by name. -/
theorem mem_leftOutNames {steps : List Step} {outcomes : List (BranchOutcome StepOutcome)} {i : Nat}
    {s : Step} (hs : steps[i]? = some s) {o : BranchOutcome StepOutcome}
    (ho : outcomes[i]? = some o) (hleft : isLeftOut o = true) :
    s.name ∈ leftOutNames steps outcomes := by
  refine List.mem_map.mpr ⟨(s.name, o), List.mem_filter.mpr ⟨?_, hleft⟩, rfl⟩
  refine List.mem_of_getElem? (i := i) ?_
  rw [List.getElem?_zip_eq_some, List.getElem?_map, hs]
  exact ⟨rfl, ho⟩

theorem parallel_drops {steps : List Step} (hsteps : ∀ s ∈ steps, Drops r policy s)
    (node : String) : Drops r policy (.parallel node steps) := by
  intro scope h result he name ho
  obtain ⟨before, outcomes, rfl, hj, -⟩ := ends_parallel_notes he
  have hopen := ho.of_append.resolve_right (not_isOpen_skipNotes _ name)
  obtain ⟨i, hi, hbelow⟩ := (joined_within hj).isOpen_below hopen
  have hs := List.getElem?_eq_getElem hi
  have hmem : steps[i] ∈ steps := List.getElem_mem hi
  rw [History.entries_append, entries_skipNotes]
  have hleft : ∀ o, outcomes[i]? = some o → isLeftOut o = true →
      name ∈ steps[i].calls.map Call.name →
      LeftOutAbove (.parallel node steps) name
        (before.entries ++ (leftOutNames steps outcomes).map StepLog.leftOut) := by
    intro o ho hleft hname
    refine (leftOutAbove_root hname (List.mem_append_right _ ?_)).of_child hs
    exact List.mem_map_of_mem (mem_leftOutNames hs ho hleft)
  have hended : ∀ result, (step r steps[i] scope).Ends policy (before.below i) (.ofResult result) →
      LeftOutAbove (.parallel node steps) name
        (before.entries ++ (leftOutNames steps outcomes).map StepLog.leftOut) := by
    intro result hends
    refine ((hsteps _ hmem scope _ result hends name hbelow).of_child hs).mono fun x hx => ?_
    exact List.mem_append_left _ ((joined_within hj).mem_entries.mpr ⟨i, hi, hx⟩)
  obtain ⟨q, hreaches⟩ := hj.reaches i _ (getElem?_branches hs)
  have hname := mem_calls_of_isOpen hreaches hbelow
  obtain ⟨o, ho, ⟨ending, hends, rfl⟩ | ⟨-, hnone⟩ | ⟨rfl, -⟩⟩ := joined_outcome hj hs
  · cases ending with
    | completed out => exact hended (.ok out) hends
    | failed err => exact hended (.error err) hends
    | skipped => exact hleft _ ho rfl hname
    | crashed => exact hleft _ ho rfl hname
  · rw [hnone] at hbelow
    exact absurd hbelow (Nat.lt_irrefl 0)
  · exact hleft _ ho rfl hname

/-- **Dropped calls.** -/
theorem step_drops (s : Step) : Drops r policy s := by
  induction s with
  | call c => exact call_drops r policy c
  | sequence name steps ih =>
      intro scope h result he name ho
      rw [step] at he
      exact sequence_drops (k := 0) (fun i t ht => by rwa [Nat.zero_add]) ih he ho
  | parallel name steps ih => exact parallel_drops ih name

end Execution

end Ensemble
