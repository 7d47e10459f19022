import Ensemble.Proofs.Execution.Calls
import Ensemble.Proofs.Run.Cover

/-!
# Steps cover their trees

What a step has performed by the time it has ended is due to leave entries
behind that cover its tree (`step_accounts`): each of its calls was
answered and has an entry that says so, or was left out, by itself or with
a node above it.

The induction is on the tree, and carries along all that is told of a step
(`Told`): that its calls start and end as the log can follow it, and that
a failure is noted wherever something is left out. A sequence adds the
entries of its steps one after the other. The branches of a parallel node
interleave, so their entries are taken apart by branch (`Parted`), and
each branch that was left out adds the entry that its node has noted.

A crash breaks this, so the induction also says where one has happened
(`Accounted`). A task that has crashed performs nothing more, and after
that no step goes on that is behind it in a sequence: so a crash can still
be seen at the end of what its task has performed (`Crashed`).
-/

namespace Ensemble

theorem Act.isQuiet_of_isSkip {a : Act} (h : a.IsSkip) : a.IsQuiet := by
  intro name
  cases a <;> first | exact ⟨rfl, rfl⟩ | cases h

namespace Execution

variable {r : Registry} {h h' before later : History Act Act.Reply} {c : Call}
  {answer : Except CallError AgentReply} {cs cs' : List Call} {task : List Nat}

/-! ## Answers and crashes -/

/-- A call has come to an answer: some task has performed its opening and,
right after that, all of a conversation that ends with the answer. -/
def Returned (r : Registry) (h : History Act Act.Reply) (c : Call)
    (answer : Except CallError AgentReply) : Prop :=
  ∃ task m xs, (opening c m ++ xs) <:+: h.of task ∧ (callAgent r c m).Ends xs (some answer)

theorem Returned.mono (hsub : ∀ task, ∃ task', h.of task <:+: h'.of task')
    (hr : Returned r h c answer) : Returned r h' c answer := by
  obtain ⟨task, m, xs, hxs, hends⟩ := hr
  obtain ⟨task', hinfix⟩ := hsub task
  exact ⟨task', m, xs, hxs.trans hinfix, hends⟩

theorem Returned.append_left (hr : Returned r before c answer) :
    Returned r (before ++ later) c answer :=
  hr.mono fun task => ⟨task, by rw [History.of_append]; exact (List.prefix_append ..).isInfix⟩

theorem Returned.append_right (hr : Returned r later c answer) :
    Returned r (before ++ later) c answer :=
  hr.mono fun task => ⟨task, by rw [History.of_append]; exact (List.suffix_append ..).isInfix⟩

theorem Returned.of_below {i : Nat} (hr : Returned r (h.below i) c answer) :
    Returned r h c answer :=
  hr.mono fun task => ⟨i :: task, by rw [History.of_below]⟩

/-- The task at a path has crashed: the last that it has performed is all that
one of some calls performs before a crash. -/
def Crashed (r : Registry) (cs : List Call) (task : List Nat) (h : History Act Act.Reply) : Prop :=
  ∃ c ∈ cs, ∃ scope xs, xs <:+ h.of task ∧ (call r c scope).Ends xs none

theorem Crashed.mono (hc : Crashed r cs task h) (hcs : cs ⊆ cs') : Crashed r cs' task h := by
  obtain ⟨c, hc, scope, xs, hxs, hends⟩ := hc
  exact ⟨c, hcs hc, scope, xs, hxs, hends⟩

theorem Crashed.of_below {i : Nat} (hc : Crashed r cs task (h.below i)) :
    Crashed r cs (i :: task) h := by
  obtain ⟨c, hc, scope, xs, hxs, hends⟩ := hc
  exact ⟨c, hc, scope, xs, History.of_below i task h ▸ hxs, hends⟩

theorem Crashed.append_right (hc : Crashed r cs task later) :
    Crashed r cs task (before ++ later) := by
  obtain ⟨c, hc, scope, xs, hxs, hends⟩ := hc
  refine ⟨c, hc, scope, xs, ?_, hends⟩
  rw [History.of_append]
  exact hxs.trans (List.suffix_append ..)

/-- What the outermost task performs later does not hide a crash below it. -/
theorem Crashed.append_own {i : Nat} (hc : Crashed r cs (i :: task) before)
    (xs : List (Exchange Act Act.Reply)) : Crashed r cs (i :: task) (before ++ .own xs) := by
  obtain ⟨c, hc, scope, ys, hys, hends⟩ := hc
  refine ⟨c, hc, scope, ys, ?_, hends⟩
  rwa [History.of_append, History.of_own_branch, List.append_nil]

/-! ## What steps tell -/

/-- What is told of some steps by the time they have ended with a result: they
are covered, as `C` says, and if they have failed or something was left out
there is a failure to blame. -/
structure Told (r : Registry)
    (C : (Call → Except CallError AgentReply → Prop) → List StepLog → Prop)
    (h : History Act Act.Reply) (e : Ending StepOutcome) : Prop where
  result : ∃ result, e = .ofResult result
  covers : C (Returned r h) h.entries
  settled : h.Settled
  blamed : (e.isFailed = true ∨ ∃ x ∈ h.entries, x.status = .skipped) →
    ∃ x ∈ h.entries, x.status = .failed

/-- How steps with some calls end if their branches are never dropped: they
tell what has become of their calls, or there was a crash, of which the
outermost task dies and which is a failure of a node above it. -/
inductive Accounted (r : Registry) (cs : List Call)
    (C : (Call → Except CallError AgentReply → Prop) → List StepLog → Prop)
    (h : History Act Act.Reply) : Ending StepOutcome → Prop
  | told {e : Ending StepOutcome} (told : Told r C h e) : Accounted r cs C h e
  | crashed (crash : Crashed r cs [] h) : Accounted r cs C h .crashed
  | below {err : FlowError} {i : Nat} {task : List Nat} (crash : Crashed r cs (i :: task) h) :
      Accounted r cs C h (.failed err)

/-- What is to be shown of a step. -/
def Accounts (r : Registry) (s : Step) : Prop :=
  ∀ scope h e, (step r s scope).Ends .completeInFlight h e →
    Accounted r s.calls (fun R => Covers R s) h e

variable {C C' : (Call → Except CallError AgentReply → Prop) → List StepLog → Prop}
  {e : Ending StepOutcome} {s : Step} {steps rest : List Step}

theorem Accounted.imp (ha : Accounted r cs C h e) (hcs : cs ⊆ cs')
    (hC : ∀ R es, C R es → C' R es) : Accounted r cs' C' h e := by
  cases ha with
  | told told => exact .told ⟨told.result, hC _ _ told.covers, told.settled, told.blamed⟩
  | crashed crash => exact .crashed (crash.mono hcs)
  | below crash => exact .below (crash.mono hcs)

/-! ## Calls -/

theorem logs_of_performs {a : Act} {handle : AgentHandle} {step : String} {m : Message}
    (ha : handle.Performs step m a) : a.logs = false := by
  cases a <;> first | rfl | cases ha

section Answered

variable {m : Message} {ys zs : List (Exchange Act Act.Reply)}
  {result : Except FlowError StepOutcome}

/-- A conversation is not about steps. -/
theorem callAgent_logs (hagent : (callAgent r c m).Ends ys (some answer)) :
    ∀ x ∈ History.own ys, x.2.act.logs = false := by
  intro x hx
  obtain ⟨y, hy, rfl⟩ := List.mem_map.mp hx
  obtain ⟨handle, -, hperforms⟩ := (callAgent_performs r c m).of_ends hagent y hy
  exact logs_of_performs hperforms

/-- What is noted of a conversation that has come to an answer. -/
theorem entries_of_concludes (hlast : Concludes c (some answer) zs (some result)) :
    History.entries (.own zs) = [c.entry answer] ∧
      ∀ name, History.count (Act.leaves name) (.own zs) = (c.name == name).toNat ∧
        History.count (Act.enters name) (.own zs) = 0 := by
  cases answer with
  | ok reply =>
      obtain ⟨rfl, -⟩ := hlast
      refine ⟨rfl, fun name => ?_⟩
      cases hname : c.name == name <;> simp [History.count_own, Act.leaves, Act.enters, hname]
  | error err =>
      obtain ⟨rfl, -⟩ := hlast
      refine ⟨rfl, fun name => ?_⟩
      cases hname : c.name == name <;> simp [History.count_own, Act.leaves, Act.enters, hname]

/-- A call that has been answered leaves one entry behind. -/
theorem entries_call (hagent : (callAgent r c m).Ends ys (some answer))
    (hlast : Concludes c (some answer) zs (some result)) :
    History.entries (.own (opening c m ++ (ys ++ zs))) = [c.entry answer] := by
  rw [History.own_append, History.own_append, History.entries_append, History.entries_append,
    History.entries_of_logs (callAgent_logs hagent), (entries_of_concludes hlast).1]
  rfl

/-- It starts with its opening and ends with what is noted of its answer. -/
theorem settled_call (hagent : (callAgent r c m).Ends ys (some answer))
    (hlast : Concludes c (some answer) zs (some result)) :
    History.Settled (.own (opening c m ++ (ys ++ zs))) := by
  have hquiet : ∀ name, History.count (Act.leaves name) (.own ys) = 0 ∧
      History.count (Act.enters name) (.own ys) = 0 := fun name =>
    ⟨History.count_eq_zero fun x hx => (Act.isQuiet_of_logs (callAgent_logs hagent x hx) name).2,
      History.count_eq_zero fun x hx => (Act.isQuiet_of_logs (callAgent_logs hagent x hx) name).1⟩
  have hcounts := (entries_of_concludes hlast).2
  rw [History.own_append, History.own_append]
  constructor
  · change Act.Matched (.logStart c.name :: .emitStart c.agent c.name m.toJson.canonical ::
      History.acts (.own ys ++ .own zs))
    refine Act.Matched.of_start fun name => ?_
    rw [List.countP_cons_of_neg Bool.false_ne_true, ← History.count_eq_countP,
      History.count_append, (hquiet name).1, (hcounts name).1, Nat.zero_add]
  · intro name
    rw [History.count_append, History.count_append, History.count_append, History.count_append,
      (hquiet name).1, (hquiet name).2, (hcounts name).1, (hcounts name).2]
    cases hname : c.name == name <;>
      simp [opening, History.count_own, Act.leaves, Act.enters, hname]

theorem told_call (hagent : (callAgent r c m).Ends ys (some answer))
    (hlast : Concludes c (some answer) zs (some result)) :
    Told r (fun R => Covers R (.call c)) (.own (opening c m ++ (ys ++ zs))) (.ofResult result) := by
  refine ⟨⟨result, rfl⟩, ?_, settled_call hagent hlast, ?_⟩
  · rw [entries_call hagent hlast]
    refine covers_call ⟨[], m, ys, ?_, hagent⟩
    rw [History.of_own_root, ← List.append_assoc]
    exact (List.prefix_append ..).isInfix
  · rw [entries_call hagent hlast]
    cases answer with
    | ok reply =>
        obtain ⟨-, hresult⟩ := hlast
        obtain rfl := Option.some.inj hresult
        rintro (hfail | ⟨x, hx, hskip⟩)
        · cases hfail
        · obtain rfl := List.mem_singleton.mp hx
          cases hskip
    | error err => exact fun _ => ⟨_, List.mem_singleton_self _, rfl⟩

end Answered

theorem call_accounts (r : Registry) (c : Call) : Accounts r (.call c) := by
  intro scope h e he
  rw [step] at he
  rcases Script.ends_prog he with ⟨xs, hcrash, rfl, rfl⟩ | ⟨xs, result, later, hcall, rfl, hret⟩
  · refine .crashed ⟨c, List.mem_singleton_self c, scope, xs, ?_, hcrash⟩
    rw [History.of_own_root]
  obtain ⟨rfl, rfl⟩ := Script.ends_ret hret
  rw [List.append_nil]
  rcases ends_call hcall with ⟨-, -, hout⟩ | ⟨m, ys, zs, answer, -, rfl, hagent, hlast⟩
  · cases hout
  cases answer with
  | none => cases hlast.2
  | some answer => exact .told (told_call hagent hlast)

/-! ## Sequences -/

theorem entries_skipNotes (names : List String) :
    History.entries (.own (skipNotes names)) = names.map StepLog.leftOut := by
  induction names with
  | nil => rfl
  | cons name rest ih => exact congrArg (StepLog.leftOut name :: ·) ih

theorem settled_skipNotes (names : List String) : History.Settled (.own (skipNotes names)) :=
  History.settled_of_isQuiet fun x hx => Act.isQuiet_of_isSkip (skipNotes_skips names x hx)

/-- The first step of a sequence has failed, and the rest is left out. -/
theorem Told.stop {err : FlowError} (hs : Told r (fun R => Covers R s) before (.failed err))
    (rest : List Step) : Told r (fun R => CoversAll R (s :: rest))
      (before ++ .own (skipNotes (rest.map Step.name))) (.failed err) := by
  refine ⟨hs.result, ?_, hs.settled.append (settled_skipNotes _), fun _ => ?_⟩
  · rw [History.entries_append, entries_skipNotes, CoversAll]
    exact ⟨_, _, .refl _, hs.covers.mono fun _ _ => .append_left, coversAll_leftOut _ rest⟩
  · obtain ⟨x, hx, hfailed⟩ := hs.blamed (Or.inl rfl)
    rw [History.entries_append]
    exact ⟨x, List.mem_append_left _ hx, hfailed⟩

/-- The first step of a sequence has completed, and the rest goes on. -/
theorem Told.cons {first : StepOutcome}
    (hs : Told r (fun R => Covers R s) before (.completed first))
    (hrest : Told r (fun R => CoversAll R rest) later e) :
    Told r (fun R => CoversAll R (s :: rest)) (before ++ later) e := by
  refine ⟨hrest.result, ?_, hs.settled.append hrest.settled, ?_⟩
  · rw [History.entries_append, CoversAll]
    exact ⟨_, _, .refl _, hs.covers.mono fun _ _ => .append_left,
      hrest.covers.mono_of fun t _ es => Covers.mono fun _ _ => .append_right⟩
  · have hleft : (∃ x ∈ before.entries, x.status = .failed) →
        ∃ x ∈ before.entries ++ later.entries, x.status = .failed := by
      rintro ⟨x, hx, hfailed⟩
      exact ⟨x, List.mem_append_left _ hx, hfailed⟩
    have hright : (∃ x ∈ later.entries, x.status = .failed) →
        ∃ x ∈ before.entries ++ later.entries, x.status = .failed := by
      rintro ⟨x, hx, hfailed⟩
      exact ⟨x, List.mem_append_right _ hx, hfailed⟩
    rw [History.entries_append]
    rintro (hfail | ⟨x, hx, hskip⟩)
    · exact hright (hrest.blamed (Or.inl hfail))
    · rcases List.mem_append.mp hx with hx | hx
      · exact hleft (hs.blamed (Or.inr ⟨x, hx, hskip⟩))
      · exact hright (hrest.blamed (Or.inr ⟨x, hx, hskip⟩))

theorem sequence_accounted (hsteps : ∀ s ∈ steps, Accounts r s) {name : String}
    {scope produced : Bindings} {last : Json}
    (he : (sequence r name scope produced last steps).Ends .completeInFlight h e) :
    Accounted r (steps.flatMap Step.calls) (fun R => CoversAll R steps) h e := by
  induction steps generalizing scope produced last h with
  | nil =>
      rw [sequence] at he
      obtain ⟨rfl, rfl⟩ := Script.ends_ret he
      refine .told ⟨⟨_, rfl⟩, ?_, History.settled_of_isQuiet (by simp), ?_⟩
      · rw [CoversAll]
        rfl
      · rintro (hfail | ⟨x, hx, -⟩)
        · cases hfail
        · cases hx
  | cons s rest ih =>
      have hfirst := hsteps s (List.mem_cons_self ..) scope
      have hcalls : s.calls ⊆ (s :: rest).flatMap Step.calls := by
        rw [List.flatMap_cons]
        exact List.subset_append_left ..
      rcases ends_sequence_notes he with
        ⟨hs, rfl⟩ | ⟨before, err, rfl, hs, rfl⟩ | ⟨before, later, first, rfl, hs, hrest⟩
      · cases hfirst h _ hs with
        | told told =>
            obtain ⟨result, hresult⟩ := told.result
            cases result <;> cases hresult
        | crashed crash => exact .crashed (crash.mono hcalls)
      · cases hfirst before _ hs with
        | told told => exact .told (told.stop rest)
        | below crash => exact .below ((crash.append_own _).mono hcalls)
      · have hall := ih (fun t ht => hsteps t (List.mem_cons_of_mem _ ht)) hrest
        have hmore : rest.flatMap Step.calls ⊆ (s :: rest).flatMap Step.calls := by
          rw [List.flatMap_cons]
          exact List.subset_append_right ..
        cases hfirst before _ hs with
        | told told =>
            cases hall with
            | told others => exact .told (told.cons others)
            | crashed crash => exact .crashed (crash.append_right.mono hmore)
            | below crash => exact .below (crash.append_right.mono hmore)

/-! ## Parallel nodes -/

/-- What a node notes of a branch. -/
def noted? (b : String × BranchOutcome StepOutcome) : Option StepLog :=
  if isLeftOut b.2 then some (.leftOut b.1) else none

theorem map_leftOutNames (steps : List Step) (outcomes : List (BranchOutcome StepOutcome)) :
    (leftOutNames steps outcomes).map StepLog.leftOut
      = ((steps.map Step.name).zip outcomes).filterMap noted? := by
  rw [leftOutNames]
  induction (steps.map Step.name).zip outcomes with
  | nil => rfl
  | cons b rest ih =>
      cases hb : isLeftOut b.2 <;> simp [noted?, hb, ih]

theorem filterMap_eq_flatMap_range {α β : Type} (f : α → Option β) (l : List α) :
    l.filterMap f = (List.range l.length).flatMap fun i => (l[i]?.bind f).toList := by
  induction l with
  | nil => rfl
  | cons a rest ih =>
      rw [List.length_cons, List.range_succ_eq_map, List.flatMap_cons, List.flatMap_map,
        List.filterMap_cons]
      simp only [List.getElem?_cons_zero, List.getElem?_cons_succ, Option.bind_some, ← ih]
      cases f a <;> rfl

/-- What has become of the branches of a node: each of them tells of its own
part, or has performed nothing and is left out. -/
def Parted (r : Registry) (steps : List Step) (before : History Act Act.Reply)
    (outcomes : List (BranchOutcome StepOutcome)) : Prop :=
  ∀ (i : Nat) (s : Step), steps[i]? = some s → ∃ o, outcomes[i]? = some o ∧
    ((∃ e, Told r (fun R => Covers R s) (before.below i) e ∧ o = e.outcome) ∨
      o = .skipped ∧ before.below i = [])

section Parted

variable {outcomes : List (BranchOutcome StepOutcome)} (hparted : Parted r steps before outcomes)
  (hwithin : before.Within steps.length) (hlength : outcomes.length = steps.length)

include hparted hwithin

theorem Parted.settled : before.Settled := by
  refine hwithin.settled fun i hi => ?_
  obtain ⟨o, -, ⟨e, told, -⟩ | ⟨-, hidle⟩⟩ := hparted i _ (List.getElem?_eq_getElem hi)
  · exact told.settled
  · rw [hidle]
    exact History.settled_of_isQuiet (by simp)

/-- Where no failure was noted, nothing was left out in a branch. -/
theorem Parted.skips_none (hnone : ∀ x ∈ before.entries, x.status ≠ .failed) :
    ∀ x ∈ before.entries, x.status ≠ .skipped := by
  intro x hx hskip
  obtain ⟨i, hi, hmem⟩ := hwithin.mem_entries.mp hx
  obtain ⟨o, -, ⟨e, told, -⟩ | ⟨-, hidle⟩⟩ := hparted i _ (List.getElem?_eq_getElem hi)
  · obtain ⟨y, hy, hfailed⟩ := told.blamed (Or.inr ⟨x, hmem, hskip⟩)
    exact hnone y (hwithin.mem_entries.mpr ⟨i, hi, hy⟩) hfailed
  · rw [hidle] at hmem
    cases hmem

include hlength

/-- Where no failure was noted, no branch has failed, and none was dropped. -/
theorem Parted.outcomes_of_none (hnone : ∀ x ∈ before.entries, x.status ≠ .failed) :
    (∀ err, .failed err ∉ outcomes) ∧ .cancelled ∉ outcomes := by
  have hat : ∀ o ∈ outcomes, o = .skipped ∨ ∃ out, o = .completed out := by
    intro o ho
    obtain ⟨i, hi⟩ := List.mem_iff_getElem?.mp ho
    have hlt : i < steps.length := hlength ▸ (List.getElem?_eq_some_iff.mp hi).1
    obtain ⟨o', ho', hfate⟩ := hparted i _ (List.getElem?_eq_getElem hlt)
    obtain rfl := Option.some.inj (hi.symm.trans ho')
    rcases hfate with ⟨e, told, rfl⟩ | ⟨rfl, -⟩
    · obtain ⟨result, rfl⟩ := told.result
      cases result with
      | ok out => exact Or.inr ⟨out, rfl⟩
      | error err =>
          obtain ⟨y, hy, hfailed⟩ := told.blamed (Or.inl rfl)
          exact absurd hfailed (hnone y (hwithin.mem_entries.mpr ⟨i, hlt, hy⟩))
    · exact Or.inl rfl
  constructor
  · intro err hmem
    rcases hat _ hmem with heq | ⟨out, heq⟩ <;> cases heq
  · intro hmem
    rcases hat _ hmem with heq | ⟨out, heq⟩ <;> cases heq

/-- The share of a branch are the entries that it has left, or the one that
its node has noted. -/
theorem Parted.covers : CoversAll (Returned r before) steps
    (before.entries ++ (leftOutNames steps outcomes).map StepLog.leftOut) := by
  let noted (i : Nat) : List StepLog :=
    ((((steps.map Step.name).zip outcomes)[i]?).bind noted?).toList
  have hzip : ((steps.map Step.name).zip outcomes).length = steps.length := by
    rw [List.length_zip, List.length_map, hlength, Nat.min_self]
  have hshares : ∀ (i : Nat) (s : Step), steps[i]? = some s →
      Covers (Returned r before) s ((before.below i).entries ++ noted i) := by
    intro i s hs
    obtain ⟨o, ho, hfate⟩ := hparted i s hs
    have hat : ((steps.map Step.name).zip outcomes)[i]? = some (s.name, o) :=
      List.getElem?_zip_eq_some.mpr ⟨by rw [List.getElem?_map, hs]; rfl, ho⟩
    have hnoted : noted i = (noted? (s.name, o)).toList := by
      simp only [noted, hat, Option.bind_some]
    rw [hnoted]
    rcases hfate with ⟨e, told, rfl⟩ | ⟨rfl, hidle⟩
    · obtain ⟨result, rfl⟩ := told.result
      have hnone : (noted? (s.name, (Ending.ofResult result).outcome)).toList = [] := by
        cases result <;> rfl
      rw [hnone, List.append_nil]
      exact told.covers.mono fun _ _ => .of_below
    · rw [hidle]
      exact covers_leftOut _ s
  refine (coversAll_of_shares hshares).perm ?_
  rw [map_leftOutNames, filterMap_eq_flatMap_range, hzip]
  exact (hwithin.entries_perm.append_right _).trans (List.flatMap_append_perm ..)

end Parted

/-- If no branch has crashed, a parallel node tells of its branches. -/
theorem told_parallel {outcomes : List (BranchOutcome StepOutcome)} {scope : Bindings}
    (name : String) (hj : Joined .completeInFlight (branches r scope steps) before outcomes)
    (htold : ∀ (i : Nat) (s : Step) (e : Ending StepOutcome), steps[i]? = some s →
      (step r s scope).Ends .completeInFlight (before.below i) e →
      outcomes[i]? = some e.outcome → Told r (fun R => Covers R s) (before.below i) e) :
    Told r (fun R => CoversAll R steps)
      (before ++ .own (skipNotes (leftOutNames steps outcomes)))
      (.ofResult (verdict name ((steps.map Step.name).zip outcomes))) := by
  have hlength := joined_length hj
  have hwithin := joined_within hj
  have hparted : Parted r steps before outcomes := by
    intro i s hs
    obtain ⟨o, ho, ⟨e, hends, rfl⟩ | hskipped | ⟨-, hpolicy⟩⟩ := joined_outcome hj hs
    · exact ⟨_, ho, Or.inl ⟨e, htold i s e hs hends ho, rfl⟩⟩
    · exact ⟨o, ho, Or.inr hskipped⟩
    · cases hpolicy
  refine ⟨⟨_, rfl⟩, ?_, (hparted.settled hwithin).append (settled_skipNotes _), fun hblame => ?_⟩
  · rw [History.entries_append, entries_skipNotes]
    exact (hparted.covers hwithin hlength).mono_of fun t _ es => Covers.mono fun _ _ => .append_left
  · rw [History.entries_append, entries_skipNotes] at hblame ⊢
    by_contra hfailed
    have hnone : ∀ x ∈ before.entries, x.status ≠ .failed := fun x hx hx' =>
      hfailed ⟨x, List.mem_append_left _ hx, hx'⟩
    -- then all branches have completed, so the node has and none was left out
    obtain ⟨hfail, hcancel⟩ := hparted.outcomes_of_none hwithin hlength hnone
    obtain ⟨outs, rfl⟩ := all_completed hj hfail hcancel
    rcases hblame with hfail | ⟨x, hx, hskip⟩
    · rw [verdict_completed name (by simpa using hlength.symm)] at hfail
      cases hfail
    rcases List.mem_append.mp hx with hx | hx
    · exact hparted.skips_none hwithin hnone x hx hskip
    · rw [map_leftOutNames] at hx
      obtain ⟨⟨name', o⟩, hmem, hnoted⟩ := List.mem_filterMap.mp hx
      obtain ⟨out, -, rfl⟩ := List.mem_map.mp (List.of_mem_zip hmem).2
      cases hnoted

theorem parallel_accounted (hsteps : ∀ s ∈ steps, Accounts r s) {name : String} {scope : Bindings}
    (he : (step r (.parallel name steps) scope).Ends .completeInFlight h e) :
    Accounted r (steps.flatMap Step.calls) (fun R => CoversAll R steps) h e := by
  obtain ⟨before, outcomes, rfl, hj, rfl⟩ := ends_parallel_notes he
  by_cases htold : ∀ (i : Nat) (s : Step) (e : Ending StepOutcome), steps[i]? = some s →
      (step r s scope).Ends .completeInFlight (before.below i) e →
      outcomes[i]? = some e.outcome → Told r (fun R => Covers R s) (before.below i) e
  · exact .told (told_parallel name hj htold)
  push Not at htold
  obtain ⟨i, s, e, hs, hends, ho, hnot⟩ := htold
  -- a branch with a crash has an outcome with which the node cannot succeed
  obtain ⟨task, hcrash, houtcome⟩ : ∃ task, Crashed r s.calls task (before.below i) ∧
      ((∃ err, e.outcome = .failed err) ∨ e.outcome = .cancelled) := by
    cases hsteps s (List.mem_of_getElem? hs) scope _ e hends with
    | told told => exact absurd told hnot
    | crashed crash => exact ⟨_, crash, Or.inr rfl⟩
    | below crash => exact ⟨_, crash, Or.inl ⟨_, rfl⟩⟩
  cases hverdict : verdict name ((steps.map Step.name).zip outcomes) with
  | ok out =>
      obtain ⟨hfail, hcancel⟩ := no_failure_of_verdict hverdict
      rw [joined_named hj] at hfail hcancel
      have hmem := List.mem_of_getElem? ho
      rcases houtcome with ⟨err, heq⟩ | heq
      · exact absurd (heq ▸ hmem) (hfail err)
      · exact absurd (heq ▸ hmem) hcancel
  | error err =>
      refine .below ((hcrash.of_below.append_own _).mono fun c hc => ?_)
      exact List.mem_flatMap.mpr ⟨s, List.mem_of_getElem? hs, hc⟩

/-! ## All steps -/

theorem step_accounts (r : Registry) (s : Step) : Accounts r s := by
  induction s with
  | call c => exact call_accounts r c
  | sequence name steps ih =>
      intro scope h e he
      rw [step] at he
      exact (sequence_accounted ih he).imp (Step.calls_sequence name steps ▸ List.Subset.refl _)
        fun R es => covers_children (s := .sequence name steps) rfl
  | parallel name steps ih =>
      intro scope h e he
      exact (parallel_accounted ih he).imp (Step.calls_parallel name steps ▸ List.Subset.refl _)
        fun R es => covers_children (s := .parallel name steps) rfl

end Execution

end Ensemble
