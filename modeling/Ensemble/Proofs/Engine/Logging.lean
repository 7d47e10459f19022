import Ensemble.Proofs.Engine.Preparation
import Ensemble.Proofs.Execution.Covering
import Ensemble.Proofs.Execution.Crashing
import Ensemble.Proofs.Execution.Matching
import Ensemble.Proofs.Plan.Validation

/-!
# Logs of runs

When a run has ended whose branches are never dropped, its log tells
exactly once what has become of each call of its plan (`log_covers`): the
log holds the entries that are due to what was performed, and these cover
the tree (`script_accounted`), since the acts that end a run are not about
steps.

Only a crash can keep a log from that. The calls of compiled plans can be
bound, so a call crashes at most with its model (`not_crashed`).

A log of any run has the entries that are due to what was performed, and
one that runs for each call that has started and has not ended
(`due_of_run`), also if branches have crashed or were dropped.
-/

namespace Ensemble

/-- The entries of a log are an exact cover of a tree, of which `R` says which
answers its calls have come to. -/
structure ExactCover (R : Call → Except CallError AgentReply → Prop) (root : Step)
    (es : List StepLog) : Prop where
  covers : Covers R root es
  ended : ∀ e ∈ es, e.status ≠ .running
  blamed : (∃ e ∈ es, e.status = .skipped) → ∃ e ∈ es, e.status = .failed
  /-- Where the names of the steps differ, each call is covered once. -/
  once : (root.walk.map Step.name).Nodup → ∀ path c, root.at? path = some (.call c) →
    CoversOnce R c (root.lineage path) es
  /-- A node has an entry only if it is left out. -/
  nodes : (root.walk.map Step.name).Nodup → ∀ s ∈ root.walk, s.isCall = false →
    ∀ e ∈ es, e.step = s.name → e.status = .skipped

/-- A tree that is covered is covered exactly. -/
theorem Covers.exact {R : Call → Except CallError AgentReply → Prop} {root : Step}
    {es : List StepLog} (h : Covers R root es)
    (hblamed : (∃ e ∈ es, e.status = .skipped) → ∃ e ∈ es, e.status = .failed) :
    ExactCover R root es := by
  refine ⟨h, fun e he => (h.concerns e he).status, hblamed, fun hnodup path c => h.once hnodup, ?_⟩
  intro hnodup s hs hnode e he hname
  rcases h.concerns e he with ⟨t, -, rfl⟩ | ⟨c, answer, hc, -, rfl⟩
  · rfl
  · -- the names would be those of a call and of a node
    have hsame : (Step.call c).name = s.name := (c.entry_step answer).symm.trans hname
    obtain rfl := List.inj_on_of_nodup_map hnodup hc hs hsame
    cases hnode

namespace Execution

variable {r : Registry} {cs : List Call} {h before : History Act Act.Reply}
  {e : Ending StepOutcome}

/-- Calls that can be bound do not crash unless a model does. -/
theorem not_crashed (hbinds : ∀ c ∈ cs, ∀ lookup, (c.bind? lookup).isSome = true)
    (hreplies : ∀ x ∈ h, ¬Act.IsFault x.2.act x.2.reply) (task : List Nat) :
    ¬Crashed r cs task h := by
  rintro ⟨c, hc, scope, xs, hxs, hends⟩
  obtain ⟨x, hx, hfault⟩ := (call_robust (hbinds c hc) scope).fault_of_crash hends
  exact hreplies (task, x) (History.mem_of.mp (hxs.subset hx)) hfault

/-- Acts that are not about steps change nothing of what is told. -/
theorem Told.append_own {s : Step} (told : Told r (fun R => Covers R s) before e)
    {xs : List (Exchange Act Act.Reply)} (hlogs : ∀ x ∈ History.own xs, x.2.act.logs = false) :
    Told r (fun R => Covers R s) (before ++ .own xs) e := by
  have hentries : (before ++ .own xs).entries = before.entries := by
    rw [History.entries_append, History.entries_of_logs hlogs, List.append_nil]
  refine ⟨told.result, ?_, told.settled.append (History.settled_of_isQuiet fun x hx =>
    Act.isQuiet_of_logs (hlogs x hx)), ?_⟩
  · rw [hentries]
    exact told.covers.mono fun _ _ => .append_left
  · rw [hentries]
    exact told.blamed

end Execution

namespace Engine

open Execution

variable {p : Prepared} {h : History Act Act.Reply} {e : Ending StepOutcome}

theorem logs_of_isClosing {a : Act} (ha : IsClosing a) : a.logs = false := by
  cases a <;> first | rfl | cases ha

theorem conclude_safe (p : Prepared) (result : Except FlowError StepOutcome) :
    (conclude p result).Safe := by
  cases result with
  | ok out => exact fun _ _ _ => trivial
  | error err => exact fun _ _ _ _ => trivial

theorem entries_of_isClosing {later : History Act Act.Reply}
    (hcloses : ∀ x ∈ later, IsClosing x.2.act) (before : History Act Act.Reply) :
    History.entries (before ++ later) = before.entries := by
  rw [History.entries_append, History.entries_of_logs fun x hx => logs_of_isClosing (hcloses x hx),
    List.append_nil]

/-- No call of a run has ended more often than it has started. -/
theorem script_matched {policy : FailurePolicy} {q : Process Act Act.Reply StepOutcome}
    (hr : (script p).Reaches policy h q) : Act.Matched (History.acts h) := by
  obtain ⟨before, later, q, rfl, hroot, hcloses⟩ := script_reaches hr
  rw [History.acts_append]
  refine (step_matched hroot).append (Act.matched_of_silent fun a ha name => ?_)
  obtain ⟨x, hx, rfl⟩ := List.mem_map.mp ha
  exact (Act.isQuiet_of_logs (logs_of_isClosing (hcloses x hx)) name).2

/-- The log of a run has the entries that are due to it. -/
theorem due_of_run {M : Type} [LanguageModel M] {config : FanoutConfig}
    {drift : World M → World M → Prop} (hdrift : ∀ w w', drift w w' → w'.log = w.log)
    {w₀ w : World M} (hfresh : w₀.log.steps = []) {q : Process Act Act.Reply StepOutcome}
    (hrun : Process.Run config World.perform drift (.line (script p)) w₀ h q w) :
    ∃ begun, Act.Due (History.acts h) begun w.log := by
  rw [World.log_of_run hdrift hrun]
  exact Act.due_noteAll (script_matched hrun.reaches) hfresh

/-- A run tells what its root step does. -/
theorem script_accounted (he : (script p).Ends .completeInFlight h e) :
    Accounted p.registry p.plan.root.calls (fun R => Covers R p.plan.root) h e := by
  rcases Script.ends_andThen he with ⟨hcrash, rfl⟩ | ⟨before, later, result, rfl, hroot, hlast⟩
  · exact step_accounts p.registry p.plan.root [] h _ hcrash
  have hcloses : ∀ x ∈ later, x.2.act.logs = false := by
    obtain ⟨q, hq, -⟩ := hlast
    exact fun x hx => logs_of_isClosing ((conclude_closes p result).of_reaches hq x hx)
  rcases Script.ends_prog hlast with ⟨xs, hcrash, -, -⟩ | ⟨xs, _, rest, -, rfl, hret⟩
  · exact absurd hcrash (conclude_safe p result).not_ends_none
  obtain ⟨rfl, rfl⟩ := Script.ends_ret hret
  rw [List.append_nil] at hcloses ⊢
  have haccounted := step_accounts p.registry p.plan.root [] before _ hroot
  generalize hresult : Ending.ofResult result = e at haccounted
  cases haccounted with
  | told told => exact .told (told.append_own hcloses)
  | crashed crash => cases result <;> cases hresult
  | below crash => exact .below (crash.append_own xs)

/-- **Logs are exact covers.** Take any run of a prepared request that has
ended, on a log without entries, and whose branches are never dropped: its
moves may come in any order, models and tools may answer as they like, and
between two moves the world may change in all but its log. Unless a task has
crashed, the entries of its log are an exact cover of the tree of its plan:
those of calls show the answers that these calls have come to. The steps of
a valid plan have different names (`Plan.validate_eq_ok_iff`), so each of its
calls is covered once. -/
theorem log_covers {M : Type} [LanguageModel M] (p : Prepared) (config : FanoutConfig)
    (hpolicy : config.failure = .completeInFlight) (drift : World M → World M → Prop)
    (hdrift : ∀ w w', drift w w' → w'.log = w.log) {w₀ w : World M} (hfresh : w₀.log.steps = [])
    {h : History Act Act.Reply} {q : Process Act Act.Reply StepOutcome} {e : Ending StepOutcome}
    (hrun : Process.Run config World.perform drift (.line (script p)) w₀ h q w)
    (hend : q.ending? = some e)
    (hcalm : ∀ task, ¬Crashed p.registry p.plan.root.calls task h) :
    ExactCover (Returned p.registry h) p.plan.root w.log.steps := by
  have hends : (script p).Ends .completeInFlight h e := ⟨q, hpolicy ▸ hrun.reaches, hend⟩
  cases script_accounted hends with
  | crashed crash => exact absurd crash (hcalm _)
  | below crash => exact absurd crash (hcalm _)
  | told told =>
      have hsteps : w.log.steps.Perm h.entries := by
        rw [World.log_of_run hdrift hrun]
        refine Act.noteAll_steps told.settled.matched hfresh fun name => ?_
        rw [← History.count_eq_countP, ← History.count_eq_countP, told.settled.ended]
      refine (told.covers.perm hsteps).exact fun ⟨x, hx, hskip⟩ => ?_
      obtain ⟨y, hy, hfailed⟩ := told.blamed (Or.inr ⟨x, hsteps.mem_iff.mp hx, hskip⟩)
      exact ⟨y, hsteps.mem_iff.mpr hy, hfailed⟩

/-! ## A call that fails -/

/-- The first answer of the models is an error. -/
def busyEnvironment : Environment Rehearsal.ScriptedModel :=
  { silentEnvironment with
    model := { replies := [("", [{ Rehearsal.Reply.plain with error := some (.request "busy") }])] } }

/-- One branch at a time, none of which is dropped. -/
def patient : FanoutConfig := { maxConcurrency := some 1, failure := .completeInFlight }

/-- The first branch fails before the second one is dispatched. -/
def firstFails : List (List Nat × Move) :=
  [([], .fork), ([], .dispatch 0)] ++ List.replicate 5 ([0], .act) ++
    [([], .finish 0), ([], .dispatch 1), ([], .join 0), ([], .join 1), ([], .collect)] ++
    List.replicate 6 ([], .act)

/-- Whether a reply is a fault. -/
def isFault : (a : Act) → a.Reply → Bool
  | .send _, pending =>
    match PendingModel.outcome pending with
    | .crashed => true
    | _ => false
  | _, _ => false

theorem isFault_iff (a : Act) (reply : a.Reply) : isFault a reply = true ↔ a.IsFault reply := by
  cases a with
  | send request =>
      change (match PendingModel.outcome reply with | .crashed => true | _ => false) = true ↔
        PendingModel.outcome reply = .crashed
      cases PendingModel.outcome reply <;> simp
  | _ => exact iff_of_false Bool.false_ne_true id

/-- A call fails, its sibling is left out, and so is the call behind them. -/
theorem log_covers_busy :
    ∃ (p : Prepared) (w : World Rehearsal.ScriptedModel) (h : History Act Act.Reply)
      (q : Process Act Act.Reply StepOutcome) (e : Ending StepOutcome),
      echoing.prepareAllowed emptyServices echoed = .ok p ∧
        Process.Run patient World.perform Eq (.line (script p))
          (World.start busyEnvironment .buffered p.log) h q w ∧
        q.ending? = some e ∧ (p.plan.root.walk.map Step.name).Nodup ∧
        w.log.steps.map StepLog.status = [.failed, .skipped, .skipped] ∧
        ExactCover (Returned p.registry h) p.plan.root w.log.steps := by
  have hplayed : (echoing.prepareAllowed emptyServices echoed).toOption.any (fun p =>
      (Process.play? patient World.perform firstFails (.line (script p))
        (World.start busyEnvironment .buffered p.log)).any fun x =>
          x.2.1.ending?.isSome && x.2.2.log.steps.map StepLog.status == [.failed, .skipped, .skipped] &&
            (x.1.all fun y => !isFault y.2.act y.2.reply) && p.log.steps == []) = true := by
    decide +kernel
  obtain ⟨p, hp, hany⟩ := (Option.any_eq_true ..).mp hplayed
  obtain ⟨⟨h, q, w⟩, hplay, hchecks⟩ := (Option.any_eq_true ..).mp hany
  simp only [Bool.and_eq_true] at hchecks
  obtain ⟨⟨⟨hended, hstatus⟩, hreplies⟩, hfresh⟩ := hchecks
  have hprepared := eq_ok_of_toOption hp
  have hrun : Process.Run patient World.perform Eq (.line (script p))
      (World.start busyEnvironment .buffered p.log) h q w := Process.Run.start.play hplay
  obtain ⟨e, hend⟩ := Option.isSome_iff_exists.mp hended
  obtain ⟨master, inputs, -, hplan, hvalid, -⟩ := prepareAllowed_eq_ok hprepared
  have hcalm : ∀ task, ¬Crashed p.registry p.plan.root.calls task h := by
    refine not_crashed (Compile.compiled_binds hplan) fun x hx hfault => ?_
    have hreply := List.all_eq_true.mp hreplies x hx
    rw [(isFault_iff _ _).mpr hfault] at hreply
    cases hreply
  exact ⟨p, w, h, q, e, hprepared, hrun, hend, (Plan.validate_eq_ok_iff.mp hvalid).1,
    eq_of_beq hstatus,
    log_covers p patient rfl Eq (fun w _ hw => hw ▸ rfl) (eq_of_beq hfresh) hrun hend hcalm⟩

end Engine

end Ensemble
