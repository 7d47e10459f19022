import Ensemble.Proofs.Run.Log
import Mathlib.Algebra.Order.BigOperators.Group.Finset
import Mathlib.Data.List.Induction

/-!
# Entries of the log

A step that starts gets an entry, and that entry is changed when the step
ends. So as long as no step ends more often than it has started (`Matched`),
the log has the entries that are due to the acts, in some order, and an
entry that runs for each start that has no end yet (`noteAll_steps`).

`Matched` is a matter of each task alone: acts that follow each other keep
it, and so do branches, however their acts come between each other
(`matched_of_branches`). So histories are `Settled`, which start and end
their steps in that way, if their parts are; and the entries that are due
to the branches of a fork are those that are due to each of them
(`Within.entries_perm`).
-/

namespace Ensemble

namespace StepLog

def running (name : String) : StepLog := { step := name, status := .running, error := none }

def leftOut (name : String) : StepLog := { step := name, status := .skipped, error := none }

end StepLog

namespace Act

/-- The entry that an act leaves behind when a step has ended or is left out. -/
def logged? : Act → Option StepLog
  | .logSuccess step => some { step, status := .success, error := none }
  | .logFailure step error => some { step, status := .failed, error := some error }
  | .logSkip step => some (.leftOut step)
  | _ => none

/-- Whether an act notes the start of a step. -/
def enters (name : String) : Act → Bool
  | .logStart step => step == name
  | _ => false

/-- Whether an act notes the end of a step that has started. -/
def leaves (name : String) : Act → Bool
  | .logSuccess step => step == name
  | .logFailure step _ => step == name
  | _ => false

theorem ended_of_logged? {a : Act} {e : StepLog} (h : a.logged? = some e) : e.status ≠ .running := by
  cases a <;> cases h <;> simp [StepLog.leftOut]

/-! ## Starts and ends -/

/-- No step has ended more often than it has started, at any time. -/
def Matched (acts : List Act) : Prop :=
  ∀ name before, before <+: acts → before.countP (leaves name) ≤ before.countP (enters name)

theorem Matched.append {acts acts' : List Act} (h : Matched acts) (h' : Matched acts') :
    Matched (acts ++ acts') := by
  intro name before hbefore
  rcases List.prefix_or_prefix_of_prefix hbefore (List.prefix_append acts acts') with
    hfirst | ⟨later, rfl⟩
  · exact h name before hfirst
  · have hlater : later <+: acts' := (List.prefix_append_right_inj acts).mp hbefore
    rw [List.countP_append, List.countP_append]
    exact Nat.add_le_add (h name acts (List.prefix_refl acts)) (h' name later hlater)

theorem Matched.of_append {acts acts' : List Act} (h : Matched (acts ++ acts')) : Matched acts :=
  fun name before hbefore => h name before (hbefore.trans (List.prefix_append acts acts'))

/-- Acts that end no step. -/
theorem matched_of_silent {acts : List Act} (h : ∀ a ∈ acts, ∀ name, a.leaves name = false) :
    Matched acts := by
  intro name before hbefore
  have hnone : before.countP (leaves name) = 0 :=
    List.countP_eq_zero.mpr fun a ha => by simp [h a (hbefore.subset ha) name]
  omega

/-- What the branches of a fork start and end, each for itself. -/
theorem matched_of_branches {n : Nat} {h : History Act Act.Reply} (hwithin : h.Within n)
    (hbranch : ∀ i < n, Matched (History.acts (h.below i))) : Matched (History.acts h) := by
  rintro name before ⟨after, hsplit⟩
  obtain ⟨part, rest, rfl, rfl, -⟩ := List.map_eq_append_iff.mp hsplit.symm
  have hpart : History.Within n part := fun x hx => hwithin x (List.mem_append_left _ hx)
  have hsum : ∀ i : Fin n,
      History.count (leaves name) (History.below i part)
        ≤ History.count (enters name) (History.below i part) := by
    intro i
    rw [History.count_eq_countP, History.count_eq_countP]
    refine hbranch i i.2 name _ ?_
    rw [History.below_append, History.acts_append]
    exact List.prefix_append ..
  calc (History.acts part).countP (leaves name)
      = ∑ i : Fin n, History.count (leaves name) (History.below i part) := by
        rw [← History.count_eq_countP, hpart.sum_below]
    _ ≤ ∑ i : Fin n, History.count (enters name) (History.below i part) :=
        Finset.sum_le_sum fun i _ => hsum i
    _ = (History.acts part).countP (enters name) := by
        rw [hpart.sum_below, History.count_eq_countP]

end Act

/-! ## Entries in the log -/

namespace RunLog

open scoped List

/-- Ending the first running entry of a step takes one such entry out of a list
and puts the ended one in. -/
theorem endFirst_perm {name : String} (status : StepStatus) (error : Option String)
    {es : List StepLog} (h : ∃ e ∈ es, e.step = name ∧ e.status = .running) :
    ∃ e rest, e.step = name ∧ e.status = .running ∧ es.Perm (e :: rest) ∧
      (endFirst name status error es).Perm ({ e with status, error } :: rest) := by
  induction es with
  | nil =>
      obtain ⟨e, he, -⟩ := h
      cases he
  | cons x rest ih =>
      rw [endFirst]
      by_cases hx : x.step = name ∧ x.status = .running
      · rw [if_pos hx]
        exact ⟨x, rest, hx.1, hx.2, .refl _, .refl _⟩
      · rw [if_neg hx]
        have hrest : ∃ e ∈ rest, e.step = name ∧ e.status = .running := by
          obtain ⟨e, he, hrunning⟩ := h
          rcases List.mem_cons.mp he with rfl | he
          · exact absurd hrunning hx
          · exact ⟨e, he, hrunning⟩
        obtain ⟨e, others, hstep, hstatus, hperm, hended⟩ := ih hrest
        exact ⟨e, x :: others, hstep, hstatus, (hperm.cons x).trans (.swap ..),
          (hended.cons x).trans (.swap ..)⟩

/-- A log that has some entries that have ended, and one that runs for each
name in `begun`. -/
structure Holds (l : RunLog) (ended : List StepLog) (begun : List String) : Prop where
  perm : l.steps.Perm (ended ++ begun.map StepLog.running)
  ended : ∀ e ∈ ended, e.status ≠ .running

variable {l : RunLog} {ended : List StepLog} {begun : List String} {name : String}

theorem Holds.startStep (h : l.Holds ended begun) (name : String) :
    (l.startStep name).Holds ended (name :: begun) := by
  refine ⟨?_, h.ended⟩
  calc l.steps ++ [StepLog.running name]
      ~ ended ++ begun.map StepLog.running ++ [StepLog.running name] := h.perm.append_right _
    _ ~ StepLog.running name :: (ended ++ begun.map StepLog.running) := List.perm_append_singleton ..
    _ ~ ended ++ (name :: begun).map StepLog.running := List.perm_middle.symm

theorem Holds.skip (h : l.Holds ended begun) (name : String) :
    (l.skip name).Holds (ended ++ [.leftOut name]) begun := by
  constructor
  · calc l.steps ++ [StepLog.leftOut name]
        ~ ended ++ begun.map StepLog.running ++ [StepLog.leftOut name] := h.perm.append_right _
      _ ~ ended ++ ([StepLog.leftOut name] ++ begun.map StepLog.running) := by
          rw [List.append_assoc]
          exact List.perm_append_comm.append_left _
      _ = ended ++ [StepLog.leftOut name] ++ begun.map StepLog.running := by
          rw [List.append_assoc]
  · refine List.forall_mem_append.mpr ⟨h.ended, ?_⟩
    simp [StepLog.leftOut]

/-- A step that runs is ended. -/
theorem Holds.endLatest (h : l.Holds ended begun) (hname : name ∈ begun) {status : StepStatus}
    (hstatus : status ≠ .running) (error : Option String) :
    (l.endLatest name status error).Holds (ended ++ [{ step := name, status, error }])
      (begun.erase name) := by
  have hmem : StepLog.running name ∈ l.steps :=
    h.perm.mem_iff.mpr (List.mem_append_right _ (List.mem_map_of_mem hname))
  obtain ⟨e, rest, hstep, hrunning, hperm, hchanged⟩ :=
    endFirst_perm status error
      ⟨_, List.mem_reverse.mpr hmem, rfl, rfl⟩
  have hall := (hperm.symm.trans (List.reverse_perm _)).trans h.perm
  -- what runs is the entry of a start
  have he : e = StepLog.running name := by
    rcases List.mem_append.mp (hall.mem_iff.mp (List.mem_cons_self ..)) with hend | hbegun
    · exact absurd hrunning (h.ended e hend)
    · obtain ⟨other, -, rfl⟩ := List.mem_map.mp hbegun
      exact congrArg StepLog.running hstep
  subst he
  have hrest : rest.Perm (ended ++ (begun.erase name).map StepLog.running) := by
    refine List.Perm.cons_inv (hall.trans ?_)
    calc ended ++ begun.map StepLog.running
        ~ ended ++ (name :: begun.erase name).map StepLog.running :=
          ((List.perm_cons_erase hname).map _).append_left _
      _ ~ StepLog.running name :: (ended ++ (begun.erase name).map StepLog.running) :=
          List.perm_middle
  constructor
  · calc (endFirst name status error l.steps.reverse).reverse
        ~ { step := name, status, error } :: rest := (List.reverse_perm _).trans hchanged
      _ ~ { step := name, status, error } :: (ended ++ (begun.erase name).map StepLog.running) :=
          hrest.cons _
      _ ~ ended ++ { step := name, status, error } :: (begun.erase name).map StepLog.running :=
          List.perm_middle.symm
      _ = ended ++ [{ step := name, status, error }] ++ (begun.erase name).map StepLog.running := by
          simp
  · exact List.forall_mem_append.mpr ⟨h.ended, by simpa using hstatus⟩

end RunLog

namespace Act

variable {l : RunLog}

/-- The log holds what is due to some acts: the entries of steps that have ended, and one that
runs for each start in `begun`, which has no end yet. -/
structure Due (acts : List Act) (begun : List String) (l : RunLog) : Prop where
  holds : l.Holds (acts.filterMap logged?) begun
  count : ∀ name, begun.count name + acts.countP (leaves name) = acts.countP (enters name)

variable {acts : List Act} {begun : List String}

theorem countP_concat (p : Act → Bool) (acts : List Act) (a : Act) :
    (acts ++ [a]).countP p = acts.countP p + (p a).toNat := by
  rw [List.countP_append, List.countP_singleton]
  cases p a <;> rfl

/-- An act that is not about steps changes nothing. -/
theorem Due.silent (h : Due acts begun l) {a : Act} (hentry : a.logged? = none)
    (henters : ∀ name, a.enters name = false) (hleaves : ∀ name, a.leaves name = false)
    {l' : RunLog} (hsteps : l'.steps = l.steps) : Due (acts ++ [a]) begun l' := by
  refine ⟨⟨?_, ?_⟩, fun name => ?_⟩
  · rw [hsteps, List.filterMap_append, List.filterMap_cons_none hentry]
    simpa using h.holds.perm
  · rw [List.filterMap_append, List.filterMap_cons_none hentry]
    simpa using h.holds.ended
  · simpa [countP_concat, henters, hleaves] using h.count name

theorem Due.start (h : Due acts begun l) (step : String) :
    Due (acts ++ [.logStart step]) (step :: begun) (l.startStep step) := by
  have hentries : (acts ++ [logStart step]).filterMap logged? = acts.filterMap logged? := by
    rw [List.filterMap_append, List.filterMap_cons_none rfl, List.filterMap_nil, List.append_nil]
  refine ⟨hentries ▸ h.holds.startStep step, fun name => ?_⟩
  have hcount := h.count name
  have hstart : (Act.logStart step).enters name = (step == name) := rfl
  have hend : (Act.logStart step).leaves name = false := rfl
  rw [countP_concat, countP_concat, hstart, hend, List.count_cons]
  cases step == name <;> simp <;> omega

theorem Due.skip (h : Due acts begun l) (step : String) :
    Due (acts ++ [.logSkip step]) begun (l.skip step) := by
  have hentries : (acts ++ [logSkip step]).filterMap logged?
      = acts.filterMap logged? ++ [.leftOut step] := List.filterMap_append
  refine ⟨hentries ▸ h.holds.skip step, fun name => ?_⟩
  simpa [countP_concat, enters, leaves] using h.count name

/-- A step can end that has started more often than it has ended. -/
theorem Due.finish (h : Due acts begun l) {a : Act} {step : String} {status : StepStatus}
    {error : Option String} (hentry : a.logged? = some { step, status, error })
    (henters : ∀ name, a.enters name = false) (hleaves : ∀ name, a.leaves name = (step == name))
    (hmatched : Matched (acts ++ [a])) {l' : RunLog}
    (hsteps : l'.steps = (l.endLatest step status error).steps) :
    Due (acts ++ [a]) (begun.erase step) l' := by
  have hcount := h.count step
  have hleave := hmatched step _ (List.prefix_refl _)
  rw [countP_concat, countP_concat, henters, hleaves, beq_self_eq_true] at hleave
  simp only [Bool.toNat_true, Bool.toNat_false] at hleave
  have hmem : step ∈ begun := List.count_pos_iff.mp (by omega)
  obtain ⟨hperm, hended⟩ := h.holds.endLatest hmem (ended_of_logged? hentry) error
  refine ⟨⟨?_, ?_⟩, fun name => ?_⟩
  · rw [hsteps, List.filterMap_append, List.filterMap_cons_some hentry]
    exact hperm
  · rw [List.filterMap_append, List.filterMap_cons_some hentry]
    exact hended
  · have hother := h.count name
    rw [countP_concat, countP_concat, henters, hleaves, List.count_erase]
    by_cases hname : step = name
    · subst hname
      simp
      omega
    · rw [beq_eq_false_iff_ne.mpr hname]
      simpa using hother

theorem Due.note (h : Due acts begun l) {a : Act} (hmatched : Matched (acts ++ [a])) :
    ∃ begun', Due (acts ++ [a]) begun' (a.note l) := by
  cases a with
  | logStart step => exact ⟨_, h.start step⟩
  | logSkip step => exact ⟨_, h.skip step⟩
  | logSuccess step => exact ⟨_, h.finish rfl (fun _ => rfl) (fun _ => rfl) hmatched rfl⟩
  | logFailure step error => exact ⟨_, h.finish rfl (fun _ => rfl) (fun _ => rfl) hmatched rfl⟩
  | _ => exact ⟨_, h.silent rfl (fun _ => rfl) (fun _ => rfl) rfl⟩

/-- The log of acts that are matched holds what is due to them. -/
theorem due_noteAll (hmatched : Matched acts) (hempty : l.steps = []) :
    ∃ begun, Due acts begun (noteAll acts l) := by
  induction acts using List.reverseRecOn with
  | nil =>
      refine ⟨[], ⟨?_, by simp⟩, by simp⟩
      rw [noteAll, List.foldl_nil, hempty]
      exact .refl _
  | append_singleton acts a ih =>
      obtain ⟨begun, hdue⟩ := ih hmatched.of_append
      rw [noteAll_append]
      exact hdue.note hmatched

/-- When all that has started has ended, nothing runs. -/
theorem noteAll_steps (hmatched : Matched acts) (hempty : l.steps = [])
    (hended : ∀ name, acts.countP (leaves name) = acts.countP (enters name)) :
    (noteAll acts l).steps.Perm (acts.filterMap logged?) := by
  obtain ⟨begun, hdue⟩ := due_noteAll hmatched hempty
  have hnone : begun = [] := by
    refine List.eq_nil_iff_forall_not_mem.mpr fun name hmem => ?_
    have hpos := List.count_pos_iff.mpr hmem
    have hcount := hdue.count name
    rw [hended name] at hcount
    omega
  have hperm := hdue.holds.perm
  rwa [hnone, List.map_nil, List.append_nil] at hperm

end Act

/-! ## Entries of histories -/

/-- Whether an act is about an entry of a step. -/
def Act.logs : Act → Bool
  | .logStart _ | .logSuccess _ | .logFailure .. | .logSkip _ => true
  | _ => false

namespace Act

variable {a : Act} {acts : List Act}

theorem logged?_of_logs (h : a.logs = false) : a.logged? = none := by
  cases a <;> first | rfl | cases h

/-- Whether an act neither starts nor ends a step. -/
def IsQuiet (a : Act) : Prop := ∀ name, a.enters name = false ∧ a.leaves name = false

theorem isQuiet_of_logs (h : a.logs = false) : a.IsQuiet := by
  intro name
  cases a <;> first | exact ⟨rfl, rfl⟩ | cases h

/-- After the start of a step that step can end once. -/
theorem Matched.of_start {step : String}
    (h : ∀ name, acts.countP (leaves name) ≤ (step == name).toNat) :
    Matched (.logStart step :: acts) := by
  intro name before hbefore
  rcases List.prefix_cons_iff.mp hbefore with rfl | ⟨rest, rfl, hrest⟩
  · exact Nat.le_refl 0
  calc (logStart step :: rest).countP (leaves name)
      = rest.countP (leaves name) := List.countP_cons_of_neg Bool.false_ne_true
    _ ≤ acts.countP (leaves name) := hrest.sublist.countP_le
    _ ≤ (step == name).toNat := h name
    _ = [logStart step].countP (enters name) := by
        cases hname : step == name <;> simp [enters, hname]
    _ ≤ (logStart step :: rest).countP (enters name) :=
        (List.singleton_sublist.mpr (List.mem_cons_self ..)).countP_le

end Act

namespace History

variable {h h' : History Act Act.Reply}

/-- The entries that are due to what was performed. -/
def entries (h : History Act Act.Reply) : List StepLog := (acts h).filterMap Act.logged?

theorem entries_append (h h' : History Act Act.Reply) :
    entries (h ++ h') = entries h ++ entries h' := by
  rw [entries, acts_append, List.filterMap_append]
  rfl

theorem entries_of_logs (hlogs : ∀ x ∈ h, x.2.act.logs = false) : entries h = [] := by
  refine List.filterMap_eq_nil_iff.mpr fun a ha => ?_
  obtain ⟨x, hx, rfl⟩ := List.mem_map.mp ha
  exact Act.logged?_of_logs (hlogs x hx)

theorem count_entries (e : StepLog) (h : History Act Act.Reply) :
    (entries h).count e = h.count fun a => a.logged? == some e := by
  rw [entries, List.count, List.countP_filterMap, count_eq_countP]
  refine List.countP_congr fun a _ => ?_
  cases a.logged? <;> simp

/-- The entries of all branches are those of each branch, taken together. -/
theorem Within.entries_perm {n : Nat} (hwithin : h.Within n) :
    (entries h).Perm ((List.range n).flatMap fun i => entries (h.below i)) := by
  refine List.perm_iff_count.mpr fun e => ?_
  let kept (a : Act) : Bool := a.logged? == some e
  calc (entries h).count e
      = ∑ i ∈ Finset.range n, count kept (h.below i) := by
        rw [count_entries, Finset.sum_range, hwithin.sum_below]
    _ = ((List.range n).map fun i => (entries (h.below i)).count e).sum := by
        simp only [count_entries]
        rfl
    _ = ((List.range n).flatMap fun i => entries (h.below i)).count e :=
        List.count_flatMap.symm

/-- An entry is due to one of the branches. -/
theorem Within.mem_entries {n : Nat} (hwithin : h.Within n) {x : StepLog} :
    x ∈ entries h ↔ ∃ i < n, x ∈ entries (h.below i) := by
  rw [hwithin.entries_perm.mem_iff, List.mem_flatMap]
  simp only [List.mem_range]

/-- Steps end only after they have started, and all that have started have ended. -/
structure Settled (h : History Act Act.Reply) : Prop where
  matched : Act.Matched (acts h)
  ended : ∀ name, h.count (Act.leaves name) = h.count (Act.enters name)

theorem Settled.append (hs : Settled h) (hs' : Settled h') : Settled (h ++ h') := by
  refine ⟨?_, fun name => ?_⟩
  · rw [acts_append]
    exact hs.matched.append hs'.matched
  · rw [count_append, count_append, hs.ended name, hs'.ended name]

theorem settled_of_isQuiet (hquiet : ∀ x ∈ h, x.2.act.IsQuiet) : Settled h := by
  refine ⟨Act.matched_of_silent fun a ha name => ?_, fun name => ?_⟩
  · obtain ⟨x, hx, rfl⟩ := List.mem_map.mp ha
    exact (hquiet x hx name).2
  · rw [count_eq_zero fun x hx => (hquiet x hx name).2,
      count_eq_zero fun x hx => (hquiet x hx name).1]

theorem Within.settled {n : Nat} (hwithin : h.Within n) (hbranch : ∀ i < n, Settled (h.below i)) :
    Settled h := by
  refine ⟨Act.matched_of_branches hwithin fun i hi => (hbranch i hi).matched, fun name => ?_⟩
  rw [← hwithin.sum_below, ← hwithin.sum_below]
  exact Finset.sum_congr rfl fun i _ => (hbranch i i.2).ended name

end History

end Ensemble
