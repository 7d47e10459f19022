import Ensemble.Proofs.Execution.Answers
import Ensemble.Proofs.Plan.Visible
import Ensemble.Proofs.Table

/-!
# Outputs of steps

If no two calls have one name, the results of all steps that complete
follow from the replies of the calls (`Step.value`), and what a step binds
to a name is the value of the last step of its tree, in post-order, that
goes by that name (`step_yields`). The history that the replies are
looked up in may go on after the step; only the step's own answers count.
-/

namespace Ensemble

namespace Execution

variable {r : Registry} {policy : FailurePolicy} {reply : String → String}

/-! ## Bindings -/

/-- A table binds every name to the value of the last of some steps that goes
by it. -/
structure Bound (reply : String → String) (steps : List Step) (table : Bindings) : Prop where
  ascending : Table.Ascending table
  lookup : ∀ name, table.lookup name = (Step.lastKnownAs name steps).map (Step.value reply)

namespace Bound

variable {ss us : List Step} {table entries : Bindings}

theorem nil : Bound reply [] [] := ⟨Table.ascending_nil, fun _ => rfl⟩

theorem extend (ht : Bound reply ss table) (hu : Bound reply us entries) :
    Bound reply (ss ++ us) (Table.extend table entries) := by
  refine ⟨ht.ascending.extend entries, fun name => ?_⟩
  rw [Table.lookup_extend hu.ascending, hu.lookup, ht.lookup, Step.lastKnownAs_append,
    Option.map_or]

/-- A node binds its value to its name, after all below it. -/
theorem insert (ht : Bound reply ss table) {s : Step} (hs : ∀ k, s.isKnownAs k = (s.name == k)) :
    Bound reply (ss ++ [s]) (Table.insert s.name (s.value reply) table) := by
  refine ⟨ht.ascending.insert _ _, fun name => ?_⟩
  rw [Table.lookup_insert, ht.lookup, Step.lastKnownAs_append, Step.lastKnownAs_singleton, hs]
  by_cases hname : name = s.name
  · rw [if_pos hname, if_pos (by simp [hname])]
    rfl
  · rw [if_neg hname, if_neg (by simpa using Ne.symm hname)]
    rfl

/-- A call binds its reply to its own name and to that of its agent. -/
theorem call (c : Call) : Bound reply [.call c] (callOutcome c (reply c.name)).bindings := by
  refine ⟨(Table.ascending_nil.insert _ _).insert _ _, fun name => ?_⟩
  rw [callOutcome, Table.lookup_insert, Table.lookup_insert, Step.lastKnownAs_singleton,
    Step.isKnownAs]
  by_cases hagent : name = c.agent
  · simp [hagent, Step.value]
  · by_cases hname : name = c.name
    · simp [hname, Step.value]
    · have hne : (c.name == name || c.agent == name) = false := by
        simp [Ne.symm hagent, Ne.symm hname]
      rw [if_neg hagent, if_neg hname, hne]
      rfl

end Bound

/-! ## Results -/

/-- What is to be shown of a step: when it completes, its result and its
bindings are made of the replies. -/
def Yields (r : Registry) (policy : FailurePolicy) (reply : String → String) (s : Step) : Prop :=
  ∀ scope h out, (step r s scope).Ends policy h (.completed out) → (s.calls.map Call.name).Nodup →
    (∀ c ∈ s.calls, lastAnswer (History.acts h) c.name = reply c.name) →
    out.value = s.value reply ∧ Bound reply s.postOrder out.bindings

theorem call_yields (c : Call) : Yields r policy reply (.call c) := by
  intro scope h out he _ hreply
  obtain rfl := call_completed he
  rw [hreply c (List.mem_singleton_self c)]
  exact ⟨rfl, .call c⟩

/-- The rest of a sequence yields what the whole one does, when `done` are
the steps before it. -/
theorem sequence_yields {steps : List Step} (hsteps : ∀ s ∈ steps, Yields r policy reply s)
    (hnodup : (Step.callNames steps).Nodup) {name : String} {scope produced : Bindings}
    {last : Json} {done : List Step} (hproduced : Bound reply (Step.postOrderAll done) produced)
    (hlast : last = ((Step.values reply done).getLast?).getD .null) {h : History Act Act.Reply}
    {out : StepOutcome}
    (he : (sequence r name scope produced last steps).Ends policy h (.completed out))
    (hreply : ∀ n ∈ Step.callNames steps, lastAnswer (History.acts h) n = reply n) :
    ∃ produced', Bound reply (Step.postOrderAll (done ++ steps)) produced' ∧
      out = sequenceOutcome name produced'
        (((Step.values reply (done ++ steps)).getLast?).getD .null) := by
  induction steps generalizing scope produced last done h with
  | nil =>
      rw [sequence] at he
      obtain ⟨-, hout⟩ := Script.ends_ret he
      obtain rfl := Except.ok.inj (ofResult_eq_completed.mp hout.symm)
      exact ⟨produced, by rwa [List.append_nil], by rw [hlast, List.append_nil]⟩
  | cons s rest ih =>
      rcases ends_sequence he with ⟨-, hcrash⟩ | ⟨before, later, rfl, hnext⟩
      · cases hcrash
      rcases hnext with ⟨err, -, -, hfail⟩ | ⟨first, hfirst, hlater⟩
      · cases hfail
      obtain ⟨hbefore, hafter⟩ :=
        replies_cons hnodup hfirst.choose_spec.1 hlater.choose_spec.1 hreply
      rw [Step.callNames_cons] at hnodup
      obtain ⟨hs, hrest, -⟩ := List.nodup_append.mp hnodup
      obtain ⟨hvalue, hbound⟩ := hsteps s (List.mem_cons_self ..) scope before first hfirst hs
        fun c hc => hbefore c.name (List.mem_map_of_mem hc)
      have hproduced' : Bound reply (Step.postOrderAll (done ++ [s]))
          (Table.extend produced first.bindings) := by
        rw [Step.postOrderAll_append, Step.postOrderAll, Step.postOrderAll, List.append_nil]
        exact hproduced.extend hbound
      have hlast' : first.value = ((Step.values reply (done ++ [s])).getLast?).getD .null := by
        rw [Step.values_eq_map, List.map_append, List.map_singleton, List.getLast?_concat, hvalue]
        rfl
      have hsplit : done ++ s :: rest = done ++ [s] ++ rest := by simp
      rw [hsplit]
      exact ih (fun t ht => hsteps t (List.mem_cons_of_mem _ ht)) hrest hproduced' hlast' hlater
        hafter

/-! ## Parallel nodes -/

section Parallel

variable {steps : List Step} {scope : Bindings} {h : History Act Act.Reply}

/-- Among the histories of branches, the answers of a call are in that of its
own branch. -/
theorem branch_answers (hnodup : (Step.callNames steps).Nodup) (hwithin : h.Within steps.length)
    (hreach : ∀ (i : Nat) s, steps[i]? = some s →
      ∃ q, (step r s scope).Reaches policy (h.below i) q)
    {i : Nat} {s : Step} (hs : steps[i]? = some s) {name : String}
    (hname : name ∈ s.calls.map Call.name) :
    answers name (History.acts (h.below i)) = answers name (History.acts h) := by
  refine answers_below fun x hx hanswer => ?_
  obtain ⟨j, hj, path, hpath⟩ := hwithin x hx
  have ht := List.getElem?_eq_getElem hj
  obtain ⟨q, hq⟩ := hreach j _ ht
  have hmem : (path, x.2) ∈ h.below j := History.mem_below.mpr (hpath ▸ hx)
  have hin := (step_answersIn _ scope).of_reaches hq _ hmem name hanswer
  obtain rfl := Step.eq_of_mem_callNames hnodup hs ht hname hin
  exact ⟨path, hpath⟩

theorem branch_reaches {outcomes : List (BranchOutcome StepOutcome)}
    (hj : Joined policy (branches r scope steps) h outcomes) {i : Nat} {s : Step}
    (hs : steps[i]? = some s) : ∃ q, (step r s scope).Reaches policy (h.below i) q :=
  hj.reaches i _ (getElem?_branches hs)

/-- The outcomes of branches, put together in order. -/
theorem bound_of_branches {outs : List StepOutcome} (hall : List.Forall₂
      (fun s (out : StepOutcome) =>
        out.value = s.value reply ∧ Bound reply s.postOrder out.bindings)
      steps outs) {done : List Step} {produced : Bindings} (hdone : Bound reply done produced) :
    Bound reply (done ++ Step.postOrderAll steps)
        (outs.foldl (fun all out => Table.extend all out.bindings) produced) ∧
      outs.map StepOutcome.value = Step.values reply steps := by
  induction hall generalizing done produced with
  | nil => exact ⟨by rwa [Step.postOrderAll, List.append_nil], rfl⟩
  | cons hfirst _ ih =>
      obtain ⟨hbound, hvalues⟩ := ih (hdone.extend hfirst.2)
      rw [List.append_assoc] at hbound
      exact ⟨hbound, by rw [List.map_cons, hvalues, hfirst.1, Step.values]⟩

theorem parallel_yields (hsteps : ∀ s ∈ steps, Yields r policy reply s) (name : String) :
    Yields r policy reply (.parallel name steps) := by
  intro scope h out he hnodup hreply
  rw [Step.calls_parallel] at hnodup hreply
  obtain ⟨before, later, outcomes, rfl, hj, hskips, hverdict⟩ := ends_parallel he
  obtain ⟨outs, rfl, rfl⟩ := verdict_eq_ok hj (ofResult_eq_completed.mp hverdict.symm)
  have hlen : outs.length = steps.length := by simpa using joined_length hj
  have hall : List.Forall₂ (fun s (out : StepOutcome) =>
      out.value = s.value reply ∧ Bound reply s.postOrder out.bindings) steps outs := by
    refine List.forall₂_iff_get.mpr ⟨hlen.symm, fun i hi hi' => ?_⟩
    have hs := List.getElem?_eq_getElem hi
    refine hsteps _ (List.getElem_mem hi) scope (before.below i) _
      (branch_ends hj hs (List.getElem?_eq_getElem hi'))
      (Step.nodup_of_callNames hnodup (List.getElem_mem hi)) fun c hc => ?_
    have hname : c.name ∈ steps[i].calls.map Call.name := List.mem_map_of_mem hc
    rw [← hreply c (List.mem_flatMap.mpr ⟨_, List.getElem_mem hi, hc⟩), History.acts_append,
      lastAnswer_append_left (skips_silent hskips c.name), lastAnswer, lastAnswer,
      branch_answers hnodup (joined_within hj) (fun i s hs => branch_reaches hj hs) hs hname]
  have hnil : Bound reply [] [] := .nil
  obtain ⟨hbound, hvalues⟩ := bound_of_branches hall hnil
  refine ⟨by rw [parallelOutcome, hvalues, Step.value], ?_⟩
  rw [parallelOutcome, hvalues, Step.postOrder]
  exact hbound.insert (s := .parallel name steps) fun _ => rfl

end Parallel

/-- **Outputs are made of replies.** The result of a step that completes, and
all that it binds, follow from the last answers of its calls. -/
theorem step_yields (s : Step) : Yields r policy reply s := by
  induction s with
  | call c => exact call_yields c
  | sequence name steps ih =>
      intro scope h out he hnodup hreply
      rw [Step.calls_sequence] at hnodup hreply
      rw [step] at he
      have hnil : Bound reply (Step.postOrderAll []) [] := .nil
      have hnames : ∀ n ∈ Step.callNames steps, lastAnswer (History.acts h) n = reply n := by
        intro n hn
        obtain ⟨c, hc, rfl⟩ := List.mem_map.mp hn
        exact hreply c hc
      obtain ⟨produced, hbound, rfl⟩ := sequence_yields ih hnodup hnil rfl he hnames
      refine ⟨by rw [sequenceOutcome, Step.value, List.nil_append], ?_⟩
      rw [Step.postOrder, sequenceOutcome]
      exact hbound.insert (s := .sequence name steps) fun _ => rfl
  | parallel name steps ih => exact parallel_yields ih name

end Execution

end Ensemble
