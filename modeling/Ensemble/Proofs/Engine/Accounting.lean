import Ensemble.Proofs.Engine.Preparation
import Ensemble.Proofs.Execution.Accounting
import Ensemble.Proofs.Run.Tokens
import Ensemble.Run.Report

/-!
# Exactly-once accounting

In a run that has ended, whatever has failed on its way, the answers that
came in time and were taken by the session are those of the trace, of the
statistics and of the bill, one for one (`usage_accounted_once`). So the
session grows by what the trace shows.

Tasks are settled one by one (`script_settles`). Their accounts make up
those of the run, in another order, and sums do not depend on the order.
-/

namespace Ensemble

/-- The cost of an answer in the trace. -/
def Chunk.cost? : Chunk → Option Cost
  | .stepFinish _ _ _ _ usage reason _ => some { usage, reason }
  | _ => none

theorem Chunk.finish?_act (c : Chunk) : c.act.finish? = c.cost? := by
  cases c <;> rfl

theorem Chunk.usage?_eq (c : Chunk) : c.usage? = c.cost?.map Cost.usage := by
  cases c <;> rfl

namespace Act

theorem writes_of_finish? {a : Act} {cost : Cost} (ha : a.finish? = some cost) :
    a.writes = true := by
  cases a <;> first | rfl | cases ha

theorem finish?_filter_writes (acts : List Act) :
    (acts.filter Act.writes).filterMap Act.finish? = acts.filterMap Act.finish? := by
  rw [List.filterMap_filter]
  refine List.filterMap_congr fun a _ => ?_
  cases hcost : a.finish? with
  | none => exact ite_self _
  | some cost => exact if_pos (writes_of_finish? hcost)

end Act

/-! ## Accounts of a run -/

/-- The answers that the tasks of a history have settled. -/
def History.settled (limit : Option Nat) (h : History Act Act.Reply) : List Cost :=
  h.tasks.flatMap fun task => Ensemble.settled limit (h.of task)

/-- The accounts of a run with the history `h` and the given trace. -/
structure Reconciled (a : Accountant) (limit : Option Nat) (h : History Act Act.Reply)
    (trace : List Chunk) : Prop where
  /-- Task by task they agree in order. -/
  tasks : ∀ task, Balanced a limit (h.of task)
  taken : (h.filterMap fun x => x.2.taken?).Perm
    ((h.settled limit).map fun c => (a.session, c.usage))
  shown : trace.filterMap Chunk.cost? = h.filterMap fun x => x.2.act.finish?
  trace : (trace.filterMap Chunk.cost?).Perm (h.settled limit)
  stats : ((h.filterMap fun x => x.2.act.stat?).map fun s => (s.usage, s.finishReasons)).Perm
    ((h.settled limit).map fun c => (c.usage, [c.reason]))
  bills : ((h.filterMap fun x => x.2.act.bill?).map SessionUsage.delta).Perm
    (if a.bills then (h.settled limit).map Cost.usage else [])

section Tasks

variable {a : Accountant} {limit : Option Nat} {h : History Act Act.Reply}

/-- What is one list for every task is one list for all, up to the order. -/
theorem perm_settled {γ δ : Type} {f : Exchange Act Act.Reply → Option γ} {g : γ → δ}
    {k : Cost → δ} (hfk : ∀ task, ((h.of task).filterMap f).map g
      = (settled limit (h.of task)).map k) :
    ((h.filterMap fun x => f x.2).map g).Perm ((h.settled limit).map k) := by
  have hperm := History.perm_of_tasks (f := fun x => (f x).map g) (h := h)
    (g := fun task => (settled limit (h.of task)).map k) fun task => by
      rw [← hfk task, List.map_filterMap]
  rw [List.map_filterMap, History.settled, List.map_flatMap]
  exact hperm

theorem Reconciled.of_tasks {trace : List Chunk} (htasks : ∀ task, Balanced a limit (h.of task))
    (hshown : trace.filterMap Chunk.cost? = h.filterMap fun x => x.2.act.finish?) :
    Reconciled a limit h trace where
  tasks := htasks
  taken := by
    have hperm := perm_settled (f := Exchange.taken?) (g := id)
      (k := fun c => (a.session, c.usage)) fun task => by
        rw [List.map_id, (htasks task).taken]
    rwa [List.map_id] at hperm
  shown := hshown
  trace := by
    have hperm := perm_settled (f := fun x => x.act.finish?) (g := id) (k := id) fun task => by
      rw [List.map_id, List.map_id, (htasks task).finished]
    rw [List.map_id, List.map_id] at hperm
    rw [hshown]
    exact hperm
  stats := perm_settled (f := fun x => x.act.stat?) fun task => (htasks task).stats
  bills := by
    cases hbills : a.bills with
    | true =>
        refine perm_settled (f := fun x => x.act.bill?) fun task => ?_
        rw [(htasks task).bills, hbills]
        rfl
    | false =>
        have hnone : h.filterMap (fun x => x.2.act.bill?) = [] := by
          refine List.filterMap_eq_nil_iff.mpr fun x hx => ?_
          have htask := (htasks x.1).bills
          rw [hbills] at htask
          exact List.filterMap_eq_nil_iff.mp (List.map_eq_nil_iff.mp htask) x.2
            (History.mem_of.mpr hx)
        rw [hnone]
        exact .nil

/-- The session has taken what the trace shows. -/
theorem Reconciled.sum_taken {trace : List Chunk} (hr : Reconciled a limit h trace) :
    Tokens.sum (World.tokensTaken a.session h) = .sum (trace.filterMap Chunk.usage?) := by
  have htaken : (World.tokensTaken a.session h).Perm ((h.settled limit).map Cost.usage) := by
    have hperm := hr.taken.filterMap fun t : String × Tokens =>
      if a.session = t.1 then some t.2 else none
    rw [List.filterMap_filterMap, List.filterMap_map] at hperm
    refine hperm.trans (List.Perm.of_eq ?_)
    have hown : ((fun t : String × Tokens => if a.session = t.1 then some t.2 else none) ∘
        fun c : Cost => (a.session, c.usage)) = some ∘ Cost.usage := funext fun _ => if_pos rfl
    rw [hown, List.filterMap_eq_map]
  have hshown : (trace.filterMap Chunk.usage?).Perm ((h.settled limit).map Cost.usage) := by
    rw [List.filterMap_congr fun c _ => c.usage?_eq, ← List.map_filterMap]
    exact hr.trace.map _
  exact Tokens.sum_perm (htaken.trans hshown.symm)

end Tasks

/-! ## Runs of an engine -/

namespace Engine

variable {e : Engine} {services : Services} {r : Request} {p : Prepared}

theorem shares_of_prepared (hprepared : e.prepareAllowed services r = .ok p) :
    Execution.Shares p.registry (e.accountant services r) e.config.stepTimeout :=
  fun _ _ hfind => handle_of_prepared hprepared hfind

/-- A run that has ended, in whatever way, has settled all answers. -/
theorem script_settles (hprepared : e.prepareAllowed services r = .ok p)
    {h : History Act Act.Reply} {ending : Ending StepOutcome}
    (he : (script p).Ends .completeInFlight h ending) (honest : ∀ x ∈ h, x.2.Honest) :
    Execution.AllSettle (e.accountant services r) e.config.stepTimeout h := by
  obtain ⟨before, later, root, rfl, hroot, hcloses⟩ := script_ends he
  have hbefore := fun x hx => honest x (List.mem_append_left later hx)
  refine (Execution.step_settles (shares_of_prepared hprepared) _ [] before root hroot
    hbefore).append (.of_free fun x hx => ?_)
  have hclosing := hcloses x hx
  cases hact : x.2.act <;> first | trivial | (rw [hact] at hclosing; exact hclosing.elim)

/-- **Exactly-once accounting.** Take any run of a prepared request that has
ended with a result, where no branch is dropped on its way. Its moves may
come in any order, models, tools and stores may fail at any of them, and
between two moves the world may change in all but the trace. The answers
that came in time and that the session took are then, one for one, the
answers in the trace, the records of the statistics and, if there is
billing, the bills. Nothing else that a run can do changes the tokens of a
session, or the statistics. So if nobody else uses the session, it grows by
the usages in the trace, which are those of the summary. -/
theorem usage_accounted_once {M : Type} [LanguageModel M]
    (hprepared : e.prepareAllowed services r = .ok p)
    (hpolicy : e.config.fanout.failure = .completeInFlight) {environment : Environment M}
    {sink : Sink} (hsink : sink.chunks = []) {drift : World M → World M → Prop}
    (hdrift : ∀ w w', drift w w' → w'.sink.chunks = w.sink.chunks) {w : World M}
    {h : History Act Act.Reply} {result : Except FlowError StepOutcome}
    (hrun : Process.Run e.config.fanout World.perform drift (.line (script p))
      (World.start environment sink p.log) h (.line (.ret result)) w) :
    Reconciled (e.accountant services r) e.config.stepTimeout h w.sink.chunks ∧
      (∀ (a : Act) (v : World M) (id : String), (World.perform a v).2.tokens id ≠ v.tokens id →
        ∃ delta, (⟨a, (World.perform a v).1⟩ : Exchange Act Act.Reply).taken? = some (id, delta) ∧
          (World.perform a v).2.tokens id = v.tokens id + delta) ∧
      (∀ (a : Act) (v : World M), (World.perform a v).2.store.stats ≠ v.store.stats →
        ∃ stat, a = .aggregate stat ∧
          (World.perform a v).2.store.stats = Store.insertStat stat v.store.stats) ∧
      ((∀ w w', drift w w' → w'.tokens r.session = w.tokens r.session) →
        w.tokens r.session = environment.services.store.tokens r.session
            + .sum (w.sink.chunks.filterMap Chunk.usage?) ∧
          (RunSummary.ofReport (report p result w)).usage
            = .sum (w.sink.chunks.filterMap Chunk.usage?)) := by
  have hends : (script p).Ends .completeInFlight h (.ofResult result) := by
    rw [← hpolicy]
    exact Script.ends_ofResult.mpr hrun.reaches
  have htasks := script_settles hprepared hends (World.honest_of_run hrun)
  have htrace := World.trace_of_run hdrift hrun
  have hshown : w.sink.chunks.filterMap Chunk.cost? = h.filterMap fun x => x.2.act.finish? := by
    calc w.sink.chunks.filterMap Chunk.cost?
        = (w.sink.chunks.map Chunk.act).filterMap Act.finish? := by
          rw [List.filterMap_map]
          exact List.filterMap_congr fun c _ => (Chunk.finish?_act c).symm
      _ = (History.acts h).filterMap Act.finish? := by
          rw [htrace, World.start, hsink, List.map_nil, List.nil_append, Act.finish?_filter_writes]
      _ = h.filterMap fun x => x.2.act.finish? := List.filterMap_map
  have hreconciled : Reconciled (e.accountant services r) e.config.stepTimeout h w.sink.chunks :=
    .of_tasks (fun task => (htasks task).toBalanced) hshown
  refine ⟨hreconciled, fun _ _ _ hne => World.taken?_of_tokens_ne hne,
    fun _ _ hne => World.aggregate_of_stats_ne hne, fun hsession => ⟨?_, rfl⟩⟩
  calc w.tokens r.session
      = (World.start environment sink p.log).tokens r.session
          + .sum (World.tokensTaken r.session h) := World.tokens_of_run hsession hrun
    _ = environment.services.store.tokens r.session
          + .sum (w.sink.chunks.filterMap Chunk.usage?) :=
        congrArg (environment.services.store.tokens r.session + ·) hreconciled.sum_taken

/-- A run with billing in which three calls are answered. -/
theorem usage_accounted_once_echoed :
    ∃ (p : Prepared) (w : World Rehearsal.ScriptedModel) (h : History Act Act.Reply)
      (out : StepOutcome),
      Process.Run echoing.config.fanout World.perform Eq (.line (script p))
          (World.start silentEnvironment .buffered p.log) h (.line (.ret (.ok out))) w ∧
        w.sink.chunks.length = 7 ∧
        Reconciled (echoing.accountant emptyServices echoed) none h w.sink.chunks ∧
        w.tokens "s" = Tokens.sum (w.sink.chunks.filterMap Chunk.usage?) := by
  obtain ⟨p, w, h, out, hprepared, hrun, hlength⟩ := exists_run
  have hsink : Sink.buffered.chunks = [] := rfl
  obtain ⟨hreconciled, -, -, hsession⟩ :=
    usage_accounted_once hprepared rfl hsink (fun w w' hw => hw ▸ rfl) hrun
  obtain ⟨htotal, -⟩ := hsession fun w w' hw => hw ▸ rfl
  exact ⟨p, w, h, out, hrun, hlength, hreconciled, htotal.trans (Tokens.zero_add _)⟩

end Engine

end Ensemble
