import Ensemble.Proofs.Agent.Handle
import Ensemble.Proofs.Process.Acts
import Ensemble.Run.Execution

/-!
# How steps end

The parts of the script of a step, and what they come to: steps that are
left out, the verdict on the branches of a parallel node, and the outcome
of a node all of whose branches have completed.
-/

namespace Ensemble

/-- Whether an act is the note that a step is left out. -/
def Act.IsSkip : Act → Prop
  | .logSkip _ => True
  | _ => False

namespace Execution

variable {r : Registry} {policy : FailurePolicy}

/-! ## Parts of scripts -/

theorem branches_eq_map (r : Registry) (scope : Bindings) (steps : List Step) :
    branches r scope steps = steps.map fun s => step r s scope := by
  induction steps with
  | nil => rfl
  | cons s rest ih => rw [branches, ih, List.map_cons]

theorem length_branches (r : Registry) (scope : Bindings) (steps : List Step) :
    (branches r scope steps).length = steps.length := by
  rw [branches_eq_map, List.length_map]

theorem getElem?_branches {scope : Bindings} {steps : List Step} {i : Nat} {s : Step}
    (hs : steps[i]? = some s) : (branches r scope steps)[i]? = some (step r s scope) := by
  rw [branches_eq_map, List.getElem?_map, hs]
  rfl

theorem exists_of_getElem?_branches {scope : Bindings} {steps : List Step} {i : Nat}
    {script : RunScript StepOutcome} (hi : (branches r scope steps)[i]? = some script) :
    ∃ s, steps[i]? = some s ∧ script = step r s scope := by
  rw [branches_eq_map, List.getElem?_map] at hi
  obtain ⟨s, hs, rfl⟩ := Option.map_eq_some_iff.mp hi
  exact ⟨s, hs, rfl⟩

/-- What is performed when steps are left out. -/
def skipNotes (names : List String) : List (Exchange Act Act.Reply) :=
  names.map fun name => ⟨.logSkip name, ()⟩

theorem skipNotes_skips (names : List String) :
    ∀ x ∈ History.own (skipNotes names), x.2.act.IsSkip := by
  simp [History.own, skipNotes, Act.IsSkip]

theorem ends_skipAll {names : List String} {xs : List (Exchange Act Act.Reply)}
    {out : Option Unit} (h : (skipAll names).Ends xs out) : xs = skipNotes names ∧ out = some () := by
  induction names generalizing xs with
  | nil => exact Prog.ends_ret h
  | cons name rest ih =>
      obtain ⟨_, xs, rfl, hrest⟩ := Prog.ends_act h
      obtain ⟨rfl, hout⟩ := ih hrest
      exact ⟨rfl, hout⟩

theorem skipAll_skips (names : List String) : (skipAll names).All Act.IsSkip := by
  induction names with
  | nil => trivial
  | cons name rest ih => exact ⟨trivial, fun _ => ih⟩

variable {result : Except FlowError StepOutcome} {names : List String}

/-- While the steps left out are noted, nothing else happens. -/
theorem reaches_skipAll {h : History Act Act.Reply} {p : Process Act Act.Reply StepOutcome}
    (hr : ((skipAll names).andThen fun () => Script.ret result).Reaches policy h p) :
    ∀ x ∈ h, x.2.act.IsSkip :=
  (Script.all_andThen_prog (skipAll_skips names) fun _ => .ret result).of_reaches hr

/-- After that a script goes on as it would have. -/
theorem ends_skipAll_ret {h : History Act Act.Reply} {e : Ending StepOutcome}
    (hr : ((skipAll names).andThen fun () => Script.ret result).Ends policy h e) :
    h = .own (skipNotes names) ∧ e = .ofResult result := by
  rcases Script.ends_prog hr with ⟨xs, hskip, -, -⟩ | ⟨xs, a, later, hskip, rfl, hret⟩
  · exact absurd (ends_skipAll hskip).2 (by simp)
  · obtain ⟨rfl, -⟩ := ends_skipAll hskip
    obtain ⟨rfl, he⟩ := Script.ends_ret hret
    exact ⟨List.append_nil _, he⟩

theorem ofResult_eq_completed {result : Except FlowError StepOutcome} {out : StepOutcome} :
    Ending.ofResult result = .completed out ↔ result = .ok out := by
  cases result <;> simp [Ending.ofResult]

/-! ## Verdicts -/

theorem firstError?_eq_none {outcomes : List (BranchOutcome StepOutcome)}
    (h : firstError? outcomes = none) (e : FlowError) : .failed e ∉ outcomes := by
  induction outcomes with
  | nil => simp
  | cons o rest ih =>
      cases o <;> simp_all [firstError?]

theorem firstAborted?_eq_none {branches : List (String × BranchOutcome StepOutcome)}
    (h : firstAborted? branches = none) : .cancelled ∉ branches.map Prod.snd := by
  induction branches with
  | nil => simp
  | cons b rest ih =>
      obtain ⟨name, o⟩ := b
      cases o <;> simp_all [firstAborted?]

/-- A node only succeeds if no branch has failed or was dropped. -/
theorem no_failure_of_verdict {name : String} {branches : List (String × BranchOutcome StepOutcome)}
    {out : StepOutcome} (h : verdict name branches = .ok out) :
    (∀ e, .failed e ∉ branches.map Prod.snd) ∧ .cancelled ∉ branches.map Prod.snd := by
  unfold verdict at h
  split at h
  · cases h
  · rename_i hfirst
    split at h
    · cases h
    · exact ⟨firstError?_eq_none hfirst, firstAborted?_eq_none ‹_›⟩

theorem firstError?_completed (outs : List StepOutcome) :
    firstError? (outs.map BranchOutcome.completed) = none := by
  induction outs with
  | nil => rfl
  | cons out outs ih => exact ih

theorem firstAborted?_of_not_mem {branches : List (String × BranchOutcome StepOutcome)}
    (h : .cancelled ∉ branches.map Prod.snd) : firstAborted? branches = none := by
  induction branches with
  | nil => rfl
  | cons b rest ih =>
      obtain ⟨name, o⟩ := b
      cases o <;> simp_all [firstAborted?]

/-- The outcome of a node all of whose branches have completed. -/
def parallelOutcome (name : String) (produced : Bindings) (values : List Json) : StepOutcome :=
  { value := .array values, bindings := Table.insert name (.array values) produced }

theorem verdict_completed (name : String) {names : List String} {outs : List StepOutcome}
    (hlen : names.length = outs.length) :
    verdict name (names.zip (outs.map .completed)) = .ok
      (parallelOutcome name (outs.foldl (fun all out => Table.extend all out.bindings) [])
        (outs.map StepOutcome.value)) := by
  have hsnd : (names.zip (outs.map BranchOutcome.completed)).map Prod.snd
      = outs.map .completed := List.map_snd_zip (by simp [hlen])
  have hall : (names.zip (outs.map BranchOutcome.completed)).filterMap
      (fun b => completed? b.2) = outs := by
    calc (names.zip (outs.map BranchOutcome.completed)).filterMap (fun b => completed? b.2)
        = ((names.zip (outs.map BranchOutcome.completed)).map Prod.snd).filterMap completed? :=
          (List.filterMap_map (f := Prod.snd) (g := completed?)).symm
      _ = outs := by
          rw [hsnd, List.filterMap_map]
          exact List.filterMap_some
  unfold verdict
  rw [hsnd, firstError?_completed, firstAborted?_of_not_mem (by simp [hsnd]), hall]
  rfl

/-! ## Parallel nodes -/

/-- If no branch is missing or has failed, all have completed. -/
theorem all_completed {scripts : List (RunScript StepOutcome)} {h : History Act Act.Reply}
    {outcomes : List (BranchOutcome StepOutcome)} (hj : Joined policy scripts h outcomes)
    (hfail : ∀ e, .failed e ∉ outcomes) (hcancel : .cancelled ∉ outcomes) :
    ∃ outs : List StepOutcome, outcomes = outs.map .completed := by
  have hskip : .skipped ∉ outcomes := by
    intro hskip
    obtain ⟨i, script, e, -, -, hfault, ho⟩ := hj.fault (Or.inl hskip)
    cases e with
    | failed e => exact hfail e (List.mem_of_getElem? ho)
    | crashed => exact hcancel (List.mem_of_getElem? ho)
    | completed out => rcases hfault with hf | hf <;> cases hf
    | skipped => rcases hfault with hf | hf <;> cases hf
  clear hj
  induction outcomes with
  | nil => exact ⟨[], rfl⟩
  | cons x rest ih =>
      obtain ⟨outs, rfl⟩ := ih (fun e he => hfail e (List.mem_cons_of_mem _ he))
        (fun hc => hcancel (List.mem_cons_of_mem _ hc))
        (fun hs => hskip (List.mem_cons_of_mem _ hs))
      cases x with
      | completed out => exact ⟨out :: outs, rfl⟩
      | failed e => exact absurd (List.mem_cons_self ..) (hfail e)
      | skipped => exact absurd (List.mem_cons_self ..) hskip
      | cancelled => exact absurd (List.mem_cons_self ..) hcancel

section Nodes

variable {name : String} {steps : List Step} {scope produced : Bindings} {last : Json}
  {h : History Act Act.Reply} {p : Process Act Act.Reply StepOutcome} {e : Ending StepOutcome}

/-- The names of the branches of a node that were left out. -/
def leftOutNames (steps : List Step) (outcomes : List (BranchOutcome StepOutcome)) : List String :=
  (((steps.map Step.name).zip outcomes).filter fun b => isLeftOut b.2).map Prod.fst

/-- A parallel node has joined its branches and noted those left out, by name. -/
theorem ends_parallel_notes (he : (step r (.parallel name steps) scope).Ends policy h e) :
    ∃ before outcomes, h = before ++ .own (skipNotes (leftOutNames steps outcomes))
      ∧ Joined policy (branches r scope steps) before outcomes
      ∧ e = .ofResult (verdict name ((steps.map Step.name).zip outcomes)) := by
  rw [step] at he
  obtain ⟨before, later, outcomes, rfl, hj, hnext⟩ := Script.ends_fork he
  obtain ⟨rfl, rfl⟩ := ends_skipAll_ret hnext
  exact ⟨before, outcomes, rfl, hj, rfl⟩

/-- A parallel node has joined its branches and noted those left out. -/
theorem ends_parallel (he : (step r (.parallel name steps) scope).Ends policy h e) :
    ∃ before later outcomes, h = before ++ later
      ∧ Joined policy (branches r scope steps) before outcomes
      ∧ (∀ x ∈ later, x.2.act.IsSkip)
      ∧ e = .ofResult (verdict name ((steps.map Step.name).zip outcomes)) := by
  obtain ⟨before, outcomes, rfl, hj, he⟩ := ends_parallel_notes he
  exact ⟨before, _, outcomes, rfl, hj, skipNotes_skips _, he⟩

section Joined

variable {outcomes : List (BranchOutcome StepOutcome)}
  (hj : Joined policy (branches r scope steps) h outcomes)

include hj

theorem joined_length : outcomes.length = steps.length := by
  rw [hj.length, length_branches]

theorem joined_within : h.Within steps.length :=
  length_branches r scope steps ▸ hj.within

/-- The outcomes are those that the node names. -/
theorem joined_named : ((steps.map Step.name).zip outcomes).map Prod.snd = outcomes := by
  refine List.map_snd_zip (Nat.le_of_eq ?_)
  rw [joined_length hj, List.length_map]

/-- A branch has come to an end of its own, was left out or was dropped. -/
theorem joined_outcome {i : Nat} {s : Step} (hs : steps[i]? = some s) :
    ∃ o, outcomes[i]? = some o ∧
      ((∃ e, (step r s scope).Ends policy (h.below i) e ∧ o = e.outcome) ∨
        (o = .skipped ∧ h.below i = []) ∨ (o = .cancelled ∧ policy = .cancelSiblings)) := by
  have hi : i < outcomes.length := joined_length hj ▸ (List.getElem?_eq_some_iff.mp hs).1
  have ho := List.getElem?_eq_getElem hi
  exact ⟨_, ho, hj.outcome i _ _ (getElem?_branches hs) ho⟩

end Joined

/-- A joined branch that has completed has ended so. -/
theorem branch_ends {outs : List StepOutcome}
    (hj : Joined policy (branches r scope steps) h (outs.map .completed)) {i : Nat} {s : Step}
    {out : StepOutcome} (hs : steps[i]? = some s) (hout : outs[i]? = some out) :
    (step r s scope).Ends policy (h.below i) (.completed out) := by
  have hoi : (outs.map BranchOutcome.completed)[i]? = some (.completed out) := by
    rw [List.getElem?_map, hout]
    rfl
  rcases hj.outcome i _ _ (getElem?_branches hs) hoi with ⟨e, he, ho⟩ | ⟨ho, -⟩ | ⟨ho, -⟩
  · cases e with
    | completed out' =>
        obtain rfl := BranchOutcome.completed.inj ho
        exact he
    | failed e => cases ho
    | skipped => cases ho
    | crashed => cases ho
  · cases ho
  · cases ho

/-- A parallel node succeeds with the outcomes of all its branches. -/
theorem verdict_eq_ok {outcomes : List (BranchOutcome StepOutcome)} {out : StepOutcome}
    (hj : Joined policy (branches r scope steps) h outcomes)
    (hok : verdict name ((steps.map Step.name).zip outcomes) = .ok out) :
    ∃ outs : List StepOutcome, outcomes = outs.map .completed ∧
      out = parallelOutcome name (outs.foldl (fun all out => Table.extend all out.bindings) [])
        (outs.map StepOutcome.value) := by
  obtain ⟨hfail, hcancel⟩ := no_failure_of_verdict hok
  rw [joined_named hj] at hfail hcancel
  obtain ⟨outs, rfl⟩ := all_completed hj hfail hcancel
  rw [verdict_completed name (by simpa using (joined_length hj).symm)] at hok
  exact ⟨outs, rfl, (Except.ok.inj hok).symm⟩

/-- The part of a parallel node in a history that goes on: every branch has
come somewhere, and all that follows are notes. -/
theorem reaches_parallel (hr : (step r (.parallel name steps) scope).Reaches policy h p) :
    ∃ before later, h = before ++ later ∧ before.Within steps.length
      ∧ (∀ i s, steps[i]? = some s → ∃ q, (step r s scope).Reaches policy (before.below i) q)
      ∧ ∀ x ∈ later, x.2.act.IsSkip := by
  have hlen := length_branches r scope steps
  have hbranch : ∀ {fates : Nat → Fate Act Act.Reply StepOutcome} {before f},
      Fan.Stands policy (branches r scope steps) fates before f →
      (∀ i script p, (branches r scope steps)[i]? = some script → (fates i).process? = some p →
        script.Reaches policy (before.below i) p) →
      ∀ (i : Nat) s, steps[i]? = some s →
        ∃ q, (step r s scope).Reaches policy (before.below i) q := by
    intro fates before f stands runs i s hs
    cases hproc : (fates i).process? with
    | none => exact ⟨_, by rw [stands.idle i hproc]; exact .start _⟩
    | some q => exact ⟨q, runs i _ q (getElem?_branches hs) hproc⟩
  rw [step] at hr
  cases hr with
  | start =>
      exact ⟨[], [], rfl, History.within_nil _, fun i s _ => ⟨_, .start _⟩, by simp⟩
  | fork stands runs =>
      exact ⟨h, [], (List.append_nil h).symm, hlen ▸ stands.within, hbranch stands runs, by simp⟩
  | collect stands runs known rest =>
      exact ⟨_, _, rfl, hlen ▸ stands.within, hbranch stands runs, reaches_skipAll rest⟩

/-! ## Sequences -/

/-- The first step of a sequence is still going on, or it has failed and the
rest is left out, or it has completed and the rest sees what it has bound. -/
theorem reaches_sequence {s : Step} {rest : List Step}
    (hr : (sequence r name scope produced last (s :: rest)).Reaches policy h p) :
    (∃ q, (step r s scope).Reaches policy h q) ∨
      ∃ before later, h = before ++ later ∧
        ((∃ q, (step r s scope).Reaches policy before q) ∧ (∀ x ∈ later, x.2.act.IsSkip) ∨
          ∃ first : StepOutcome, (step r s scope).Ends policy before (.completed first) ∧
            (sequence r name (Table.extend scope first.bindings)
              (Table.extend produced first.bindings) first.value rest).Reaches policy later p) := by
  rw [sequence] at hr
  rcases Script.reaches_andThen hr with ⟨q, hq, -⟩ | ⟨before, later, result, rfl, hfirst, hnext⟩
  · exact Or.inl ⟨q, hq⟩
  · refine Or.inr ⟨before, later, rfl, ?_⟩
    cases result with
    | ok first => exact Or.inr ⟨first, Script.ends_ofResult.mpr hfirst, hnext⟩
    | error err => exact Or.inl ⟨⟨_, hfirst⟩, reaches_skipAll hnext⟩

/-- What a sequence has performed when it has ended: if its first step has failed, the rest is left
out by name. -/
theorem ends_sequence_notes {s : Step} {rest : List Step}
    (he : (sequence r name scope produced last (s :: rest)).Ends policy h e) :
    ((step r s scope).Ends policy h .crashed ∧ e = .crashed) ∨
      (∃ before err, h = before ++ .own (skipNotes (rest.map Step.name)) ∧
        (step r s scope).Ends policy before (.failed err) ∧ e = .failed err) ∨
      ∃ before later first, h = before ++ later ∧
        (step r s scope).Ends policy before (.completed first) ∧
        (sequence r name (Table.extend scope first.bindings)
          (Table.extend produced first.bindings) first.value rest).Ends policy later e := by
  rw [sequence] at he
  rcases Script.ends_andThen he with hcrash | ⟨before, later, result, rfl, hfirst, hnext⟩
  · exact Or.inl hcrash
  · cases result with
    | ok first => exact Or.inr (Or.inr ⟨before, later, first, rfl, hfirst, hnext⟩)
    | error err =>
        obtain ⟨rfl, rfl⟩ := ends_skipAll_ret hnext
        exact Or.inr (Or.inl ⟨before, err, rfl, hfirst, rfl⟩)

theorem ends_sequence {s : Step} {rest : List Step}
    (he : (sequence r name scope produced last (s :: rest)).Ends policy h e) :
    ((step r s scope).Ends policy h .crashed ∧ e = .crashed) ∨
      ∃ before later, h = before ++ later ∧
        ((∃ err, (step r s scope).Ends policy before (.failed err) ∧
            (∀ x ∈ later, x.2.act.IsSkip) ∧ e = .failed err) ∨
          ∃ first : StepOutcome, (step r s scope).Ends policy before (.completed first) ∧
            (sequence r name (Table.extend scope first.bindings)
              (Table.extend produced first.bindings) first.value rest).Ends policy later e) := by
  rcases ends_sequence_notes he with
    hcrash | ⟨before, err, rfl, hfirst, rfl⟩ | ⟨before, later, first, rfl, hfirst, hrest⟩
  · exact Or.inl hcrash
  · exact Or.inr ⟨before, _, rfl, Or.inl ⟨err, hfirst, skipNotes_skips _, rfl⟩⟩
  · exact Or.inr ⟨before, later, rfl, Or.inr ⟨first, hfirst, hrest⟩⟩

end Nodes

end Execution

end Ensemble
