import Ensemble.Proofs.Agent.Effects
import Ensemble.Proofs.Execution.Calls
import Ensemble.Proofs.Execution.Composition
import Ensemble.Proofs.Run.Results

/-!
# Saved results of steps

What a step saves is what it shows to have saved (`step_files`): for each of
its calls the uses of tools that have saved a result are, in order, those
that can be read off the rounds that are shown of it (`Registry.savings`).
One call is a conversation, whose rounds show what they do
(`AgentHandle.Reported`); where the calls of a step have different names,
those of its branches do not mix.
-/

namespace Ensemble

/-! ## Savings that rounds show -/

namespace Registry

/-- Whether an agent saves results with a tool. -/
def saves (r : Registry) (agent tool : String) : Bool :=
  match (r.find? agent).bind fun h => h.tools.lookup tool with
  | some (.saveResults _) => true
  | _ => false

/-- The results that rounds show to have been saved. -/
def savings (r : Registry) (rounds : List ShownRound) : List Saving :=
  rounds.flatMap fun s =>
    ((Message.toolUses s.messages).filter fun u => r.saves s.agent u.1.name).map fun u =>
      { step := s.step, args := u.1.args, result := u.2 }

theorem savings_append (r : Registry) (rounds rounds' : List ShownRound) :
    r.savings (rounds ++ rounds') = r.savings rounds ++ r.savings rounds' := List.flatMap_append

theorem step_of_mem_savings {r : Registry} {s : ShownRound} {x : Saving}
    (hx : x ∈ r.savings [s]) : x.step = s.step := by
  rw [savings, List.flatMap_singleton] at hx
  obtain ⟨u, -, rfl⟩ := List.mem_map.mp hx
  rfl

theorem savings_filter (r : Registry) (step : String) (rounds : List ShownRound) :
    r.savings (rounds.filter fun s => s.step = step)
      = (r.savings rounds).filter fun s => s.step = step := by
  induction rounds with
  | nil => rfl
  | cons s rest ih =>
      rw [← List.singleton_append, List.filter_append, savings_append, savings_append,
        List.filter_append, ih]
      congr 1
      by_cases hs : s.step = step
      · have hall : (r.savings [s]).filter (fun x => x.step = step) = r.savings [s] :=
          List.filter_eq_self.mpr fun x hx => by simp [step_of_mem_savings hx, hs]
        rw [hall, List.filter_cons_of_pos (by simpa using hs), List.filter_nil]
      · have hnone : (r.savings [s]).filter (fun x => x.step = step) = [] :=
          List.filter_eq_nil_iff.mpr fun x hx => by simp [step_of_mem_savings hx, hs]
        rw [hnone, List.filter_cons_of_neg (by simpa using hs), List.filter_nil]
        rfl

end Registry

namespace Exchange

/-- What an exchange saves in a step. -/
def savedIn? (session step : String) (x : Exchange Act Act.Reply) : Option Saving :=
  (x.saving? session).filter fun s => s.step = step

/-- The answer of a step that an exchange shows. -/
def shownIn? (step : String) (x : Exchange Act Act.Reply) : Option ShownRound :=
  x.act.round?.filter fun s => s.step = step

end Exchange

/-! ## Conversations -/

/-- What a use of a tool has saved. -/
def ToolUse.saving? (step : String) (u : ToolUse) : Option Saving :=
  match u.tool with
  | .saveResults _ => some { step, args := u.call.args, result := u.value }
  | .custom .. => none

namespace AgentHandle

variable {h : AgentHandle} {step session : String} {history : List Message}

theorem InTurn.savings {context : ToolContext} {calls : List ToolCall} {used : List ToolUse}
    {xs : List (Exchange Act Act.Reply)} {failure : Option CallError}
    (ht : h.InTurn context calls used xs failure) (hsession : context.sessionId = session) :
    xs.filterMap (Exchange.saving? session) = used.filterMap (ToolUse.saving? context.step) := by
  obtain ⟨rest, last, -, rfl, -, hhalts⟩ := ht
  have hlast : last.filterMap (Exchange.saving? session) = [] := by
    cases hhalts with
    | done => rfl
    | unknown find => rfl
    | @failed c rest tool e find => cases tool <;> rfl
  rw [List.filterMap_append, hlast, List.append_nil, List.filterMap_map]
  refine List.filterMap_congr fun u _ => ?_
  obtain ⟨call, tool, value⟩ := u
  cases tool with
  | saveResults usual => exact if_pos hsession
  | custom spec run => rfl

theorem settled_savings (r : ModelResponse) (results : List Part) (usage : SessionUsage) :
    (h.settled step r results usage).filterMap (Exchange.saving? session) = [] :=
  List.filterMap_eq_nil_iff.mpr fun x hx =>
    Exchange.saving?_of_not_use (settled_not_use r results usage x hx) session

theorem savings_performed (hsession : h.context.sessionId = session) {rounds : List Round}
    (hrounds : ∀ e ∈ rounds, Round.Holds h step e) :
    (h.performed step history rounds).filterMap (Exchange.saving? session)
      = rounds.flatMap fun e => e.used.filterMap (ToolUse.saving? step) := by
  induction rounds generalizing history with
  | nil => rfl
  | cons e rest ih =>
      obtain ⟨he, hrest⟩ := List.forall_mem_cons.mp hrounds
      have husing : e.uses.filterMap (Exchange.saving? session)
          = e.used.filterMap (ToolUse.saving? step) := he.turn.savings hsession
      rw [performed, List.filterMap_cons_none rfl, List.filterMap_append, List.filterMap_append,
        husing, settled_savings, ih hrest, List.append_nil, List.flatMap_cons]

/-- What is shown of a round shows what it has saved. -/
theorem savings_shown {r : Registry} (hfind : r.find? h.name = some h) {e : Round}
    (he : e.Holds h step) :
    r.savings [e.shown h step] = e.used.filterMap (ToolUse.saving? step) := by
  obtain ⟨-, -, -, -, hknown, -⟩ := he.turn
  have hsaves : ∀ u ∈ e.used, r.saves h.name u.call.name = (u.saving? step).isSome := by
    intro u hu
    unfold Registry.saves ToolUse.saving?
    rw [hfind, Option.bind_some, hknown u hu]
    cases u.tool <;> rfl
  have hall : ∀ used : List ToolUse, (∀ u ∈ used, u ∈ e.used) →
      ((used.map fun u => (u.call, u.value)).filter fun u => r.saves h.name u.1.name).map
          (fun u => (⟨step, u.1.args, u.2⟩ : Saving))
        = used.filterMap (ToolUse.saving? step) := by
    intro used
    induction used with
    | nil => exact fun _ => rfl
    | cons u rest ih =>
        intro hused
        obtain ⟨hu, hrest⟩ := List.forall_mem_cons.mp hused
        rw [List.map_cons, List.filter_cons, hsaves u hu, List.filterMap_cons]
        unfold ToolUse.saving?
        cases u.tool with
        | saveResults usual => exact congrArg (List.cons _) (ih hrest)
        | custom spec run => exact ih hrest
  rw [Registry.savings, List.flatMap_singleton]
  change ((Message.toolUses e.messages).filter fun u => r.saves h.name u.1.name).map _ = _
  rw [he.toolUses]
  exact hall e.used fun u hu => hu

theorem savings_rounds {r : Registry} (hfind : r.find? h.name = some h) {rounds : List Round}
    (hrounds : ∀ e ∈ rounds, Round.Holds h step e) :
    r.savings (rounds.map (Round.shown h step))
      = rounds.flatMap fun e => e.used.filterMap (ToolUse.saving? step) := by
  induction rounds with
  | nil => rfl
  | cons e rest ih =>
      obtain ⟨he, hrest⟩ := List.forall_mem_cons.mp hrounds
      rw [List.map_cons, ← List.singleton_append, Registry.savings_append,
        savings_shown hfind he, ih hrest, List.flatMap_cons]

/-- What a call saves is what it shows to have saved, for its own step. -/
theorem Reported.savings {r : Registry} (hfind : r.find? h.name = some h)
    (hsession : h.context.sessionId = session) {m : Message} {rounds : List Round}
    {tail xs : List (Exchange Act Act.Reply)} {out : Option (Except CallError AgentReply)}
    (hr : h.Reported step m rounds tail xs out) :
    xs.filterMap (Exchange.saving? session) = r.savings (xs.filterMap fun x => x.act.round?) ∧
      (∀ s ∈ xs.filterMap (Exchange.saving? session), s.step = step) ∧
      ∀ s ∈ xs.filterMap (fun x => x.act.round?), s.step = step := by
  have hsaved : xs.filterMap (Exchange.saving? session)
      = rounds.flatMap fun e => e.used.filterMap (ToolUse.saving? step) := by
    have htail : tail.filterMap (Exchange.saving? session) = [] := by
      rcases hr.unanswered with rfl | ⟨_, _, rfl, -⟩ <;> rfl
    rw [hr.performed, List.filterMap_append, savings_performed hsession hr.holds, htail,
      List.append_nil]
  refine ⟨?_, ?_, ?_⟩
  · rw [hsaved, hr.shown, savings_rounds hfind hr.holds]
  · rw [hsaved]
    intro s hs
    obtain ⟨e, -, hs⟩ := List.mem_flatMap.mp hs
    obtain ⟨u, -, hs⟩ := List.mem_filterMap.mp hs
    unfold ToolUse.saving? at hs
    split at hs
    · exact Option.some.inj hs ▸ rfl
    · cases hs
  · rw [hr.shown]
    intro s hs
    obtain ⟨e, -, rfl⟩ := List.mem_map.mp hs
    rfl

end AgentHandle

/-! ## Steps -/

namespace Exchange

/-- Whether an exchange saves nothing and shows no answer. -/
def IsSilent (session : String) (x : Exchange Act Act.Reply) : Prop :=
  x.saving? session = none ∧ x.act.round? = none

variable {session : String} {x : Exchange Act Act.Reply}

theorem IsSilent.savedIn? (hx : x.IsSilent session) (step : String) :
    x.savedIn? session step = none := by
  rw [Exchange.savedIn?, hx.1, Option.filter_none]

theorem IsSilent.shownIn? (hx : x.IsSilent session) (step : String) : x.shownIn? step = none := by
  rw [Exchange.shownIn?, hx.2, Option.filter_none]

theorem isSilent_of_isSkip (hx : x.act.IsSkip) : x.IsSilent session := by
  obtain ⟨a, reply⟩ := x
  cases a <;> first | exact ⟨rfl, rfl⟩ | exact hx.elim

end Exchange

namespace Execution

variable {r : Registry} {session : String} {cs : List Call} {h : History Act Act.Reply}

/-- Some calls have saved what they show to have saved, and nothing was saved or
shown for other steps. -/
structure Filed (r : Registry) (session : String) (cs : List Call) (h : History Act Act.Reply) :
    Prop where
  others : ∀ n ∉ cs.map Call.name, ∀ x ∈ h,
    x.2.savedIn? session n = none ∧ x.2.shownIn? n = none
  shown : ∀ n, h.filterMap (fun x => x.2.savedIn? session n)
    = r.savings (h.filterMap fun x => x.2.shownIn? n)

/-- What is to be shown of calls with different names, as long as the session
takes the usage of their answers. -/
def Files (r : Registry) (session : String) (cs : List Call) (h : History Act Act.Reply) : Prop :=
  (cs.map Call.name).Nodup → (∀ x ∈ h, x.2.isRefusal = false) → Filed r session cs h

theorem filed_of_silent (hsilent : ∀ x ∈ h, x.2.IsSilent session) : Filed r session cs h := by
  refine ⟨fun n _ x hx => ⟨(hsilent x hx).savedIn? n, (hsilent x hx).shownIn? n⟩, fun n => ?_⟩
  rw [List.filterMap_eq_nil_iff.mpr fun x hx => (hsilent x hx).savedIn? n,
    List.filterMap_eq_nil_iff.mpr fun x hx => (hsilent x hx).shownIn? n]
  rfl

theorem Filed.append {cs' : List Call} {h' : History Act Act.Reply} (hf : Filed r session cs h)
    (hf' : Filed r session cs' h') : Filed r session (cs ++ cs') (h ++ h') := by
  refine ⟨fun n hn => ?_, fun n => ?_⟩
  · rw [List.map_append, List.mem_append, not_or] at hn
    exact List.forall_mem_append.mpr ⟨hf.others n hn.1, hf'.others n hn.2⟩
  · rw [List.filterMap_append, List.filterMap_append, hf.shown, hf'.shown,
      Registry.savings_append]

/-- A step that is shown is below one branch only. -/
theorem filed_of_branches {steps : List Step} (hnodup : (Step.callNames steps).Nodup)
    (hwithin : h.Within steps.length)
    (hbranch : ∀ (i : Nat) (s : Step), steps[i]? = some s → Filed r session s.calls (h.below i)) :
    Filed r session (steps.flatMap Step.calls) h := by
  have hnone : ∀ n (i : Nat) (s : Step), steps[i]? = some s → n ∉ s.calls.map Call.name →
      ∀ x ∈ h.below i, x.2.savedIn? session n = none ∧ x.2.shownIn? n = none :=
    fun n i s hs hn => (hbranch i s hs).others n hn
  have hothers : ∀ n ∉ Step.callNames steps, ∀ x ∈ h,
      x.2.savedIn? session n = none ∧ x.2.shownIn? n = none := by
    intro n hn x hx
    obtain ⟨i, hi, path, hpath⟩ := hwithin x hx
    have hmem : (path, x.2) ∈ h.below i := History.mem_below.mpr (hpath ▸ hx)
    have hs := List.getElem?_eq_getElem hi
    exact hnone n i _ hs (fun hbelow => hn (Step.mem_callNames (List.getElem_mem hi) hbelow))
      (path, x.2) hmem
  refine ⟨hothers, fun n => ?_⟩
  by_cases hn : n ∈ Step.callNames steps
  · obtain ⟨c, hc, rfl⟩ := List.mem_map.mp hn
    obtain ⟨s, hmem, hcs⟩ := List.mem_flatMap.mp hc
    obtain ⟨i, hi, rfl⟩ := List.getElem_of_mem hmem
    have hs := List.getElem?_eq_getElem hi
    have hbelow : ∀ j < steps.length, j ≠ i → ∀ x ∈ h.below j,
        x.2.savedIn? session c.name = none ∧ x.2.shownIn? c.name = none := by
      intro j hj hne
      refine hnone c.name j _ (List.getElem?_eq_getElem hj) fun hother => hne ?_
      exact Step.eq_of_mem_callNames hnodup (List.getElem?_eq_getElem hj) hs hother
        (List.mem_map_of_mem hcs)
    rw [hwithin.filterMap_below fun j hj hne x hx => (hbelow j hj hne x hx).1,
      hwithin.filterMap_below fun j hj hne x hx => (hbelow j hj hne x hx).2]
    exact (hbranch i _ hs).shown c.name
  · rw [List.filterMap_eq_nil_iff.mpr fun x hx => (hothers n hn x hx).1,
      List.filterMap_eq_nil_iff.mpr fun x hx => (hothers n hn x hx).2]
    rfl

theorem files_composes (r : Registry) (session : String) : Composes (Files r session) where
  skips hskips := fun _ _ => filed_of_silent fun x hx => Exchange.isSilent_of_isSkip (hskips x hx)
  append hf hf' := by
    intro hnodup haccepts
    rw [List.map_append] at hnodup
    obtain ⟨haccept, haccept'⟩ := List.forall_mem_append.mp haccepts
    exact (hf hnodup.of_append_left haccept).append (hf' hnodup.of_append_right haccept')
  fork hwithin hbranch := by
    intro hnodup haccepts
    refine filed_of_branches hnodup hwithin fun i s hs => ?_
    exact hbranch i s hs (Step.nodup_of_callNames hnodup (List.mem_of_getElem? hs)) fun x hx =>
      haccepts (i :: x.1, x.2) (History.mem_below.mp hx)

/-- All agents know their names, and save results for one session. -/
def FilesFor (r : Registry) (session : String) : Prop :=
  ∀ name h, r.find? name = some h → h.name = name ∧ h.context.sessionId = session

/-- What a task does for one call. -/
theorem filed_of_own {c : Call} {xs : List (Exchange Act Act.Reply)}
    (hshown : xs.filterMap (Exchange.saving? session)
      = r.savings (xs.filterMap fun x => x.act.round?))
    (hsaved : ∀ s ∈ xs.filterMap (Exchange.saving? session), s.step = c.name)
    (hrounds : ∀ s ∈ xs.filterMap (fun x => x.act.round?), s.step = c.name) :
    Filed r session [c] (.own xs) := by
  refine ⟨fun n hn x hx => ?_, fun n => ?_⟩
  · have hne : c.name ≠ n := fun heq => hn (List.mem_singleton.mpr heq.symm)
    obtain ⟨y, hy, rfl⟩ := List.mem_map.mp hx
    constructor
    · refine Option.filter_eq_none_iff.mpr fun s hs => ?_
      rw [hsaved s (List.mem_filterMap.mpr ⟨y, hy, hs⟩)]
      simpa using hne
    · refine Option.filter_eq_none_iff.mpr fun s hs => ?_
      rw [hrounds s (List.mem_filterMap.mpr ⟨y, hy, hs⟩)]
      simpa using hne
  · rw [History.filterMap_own (Exchange.savedIn? session n),
      History.filterMap_own (Exchange.shownIn? n)]
    calc xs.filterMap (Exchange.savedIn? session n)
        = (xs.filterMap (Exchange.saving? session)).filter fun s => s.step = n :=
          List.filter_filterMap.symm
      _ = r.savings ((xs.filterMap fun x => x.act.round?).filter fun s => s.step = n) := by
          rw [hshown, Registry.savings_filter]
      _ = r.savings (xs.filterMap (Exchange.shownIn? n)) := by
          rw [List.filter_filterMap]
          rfl

theorem filed_call (hfor : FilesFor r session) {c : Call} {xs : List (Exchange Act Act.Reply)}
    {scope : Bindings} {out : Option (Except FlowError StepOutcome)}
    (hp : (call r c scope).Ends xs out) (haccepts : ∀ x ∈ xs, x.isRefusal = false) :
    Filed r session [c] (.own xs) := by
  rcases ends_call hp with ⟨-, rfl, -⟩ | ⟨m, ys, zs, answer, -, rfl, hagent, hlast⟩
  · exact filed_of_silent (by simp [History.own, Exchange.IsSilent, Exchange.saving?, Act.round?])
  have hopening : Filed r session [] (.own (opening c m)) :=
    filed_of_silent (by
      simp [History.own, opening, Exchange.IsSilent, Exchange.saving?, Act.round?])
  have hclosing : Filed r session [] (.own zs) := by
    refine filed_of_silent ?_
    rcases answer with - | e | reply
    · obtain ⟨rfl, -⟩ := hlast
      simp [History.own]
    · obtain ⟨rfl, -⟩ := hlast
      simp [History.own, Exchange.IsSilent, Exchange.saving?, Act.round?]
    · obtain ⟨rfl, -⟩ := hlast
      simp [History.own, Exchange.IsSilent, Exchange.saving?, Act.round?]
  have hagents : Filed r session [c] (.own ys) := by
    rcases ends_callAgent hagent with ⟨hd, hfind, hconversation⟩ | ⟨-, rfl, -⟩
    · obtain ⟨hname, hsession⟩ := hfor _ _ hfind
      obtain ⟨rounds, tail, hreported⟩ := hconversation.reported (by omega) fun x hx =>
        haccepts x (List.mem_append_right _ (List.mem_append_left _ hx))
      obtain ⟨hshown, hsaved, hrounds⟩ := hreported.savings (hname ▸ hfind) hsession
      exact filed_of_own hshown hsaved hrounds
    · exact filed_of_silent (by simp [History.own])
  rw [History.own_append, History.own_append]
  exact hopening.append (hagents.append hclosing)

theorem step_files (hfor : FilesFor r session) (s : Step) :
    Composes.Ended (Files r session) r s := by
  refine (files_composes r session).ended (fun cs _ _ => filed_of_silent (by simp)) ?_
  intro c _ scope h e he _ haccepts
  obtain ⟨xs, out, rfl, hcall⟩ := ends_step_call he
  exact filed_call hfor hcall fun x hx => haccepts ([], x) (List.mem_map_of_mem hx)

end Execution

end Ensemble
