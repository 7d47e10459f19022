import Ensemble.Proofs.Engine.Preparation
import Ensemble.Proofs.Execution.Twins

/-!
# Best-effort services

Whether the statistics and the bill can be written decides nothing. A run is
followed twice, in surroundings that are alike but for these two services,
their failures and the clock: it takes the same way, and its report says the
same but for times (`best_effort_invisible`).
-/

namespace Ensemble

/-- Two reports that differ in their times only. -/
structure RunReport.Like (r r' : RunReport) : Prop where
  flow : r'.flow = r.flow
  state : r'.state = r.state
  result : r'.result = r.result
  error : r'.error = r.error
  /-- The chunks say the same, but when. -/
  trace : r'.trace.map Chunk.act = r.trace.map Chunk.act
  counts : r'.counts = r.counts
  log : r'.log = r.log
  session : Option.Rel Session.Like r.session r'.session

namespace Engine

variable {M : Type} {e : Engine} {p : Prepared}

theorem script_twin (p : Prepared) : (script p).Twin runLikeness (script p) :=
  (Execution.step_twin p.registry p.plan.root []).andThen fun result =>
    Script.twin_of_all ((conclude_closes p result).mono (counts_of fun _ _ _ => id))

theorem report_like {w w' : World M} (hw : w.Like w') (p : Prepared)
    (result : Except FlowError StepOutcome) : (report p result w).Like (report p result w') :=
  ⟨rfl, rfl, rfl, rfl, hw.sink.chunks, hw.counts, hw.log, hw.finalized⟩

/-- Two runs of a request that have come equally far: they have both ended
alike or not at all, they have the same to report but for times, and they
leave behind the same sessions and results. -/
structure EquallyFar (p : Prepared)
    (x x' : History Act Act.Reply × Process Act Act.Reply StepOutcome × World M) : Prop where
  ending : x'.2.1.ending? = x.2.1.ending?
  report : ∀ result, (report p result x.2.2).Like (report p result x'.2.2)
  environment : x.2.2.environment.Like x'.2.2.environment

variable [LanguageModel M] {environment environment' : Environment M}

theorem follow?_like (halike : environment.Like environment') {ticks ticks' : List (Tick M)}
    (hticks : List.Forall₂ Tick.Like ticks ticks') (e : Engine) (p : Prepared) (sink : Sink) :
    Option.Rel (EquallyFar p)
      (World.follow? e.config.fanout ticks (.line (script p)) (World.start environment sink p.log))
      (World.follow? e.config.fanout ticks' (.line (script p))
        (World.start environment' sink p.log)) := by
  have hfollow := World.follow?_twin e.config.fanout hticks (.line (script_twin p))
    (World.like_start halike sink p.log)
  exact optionRel_imp hfollow fun x x' h =>
    ⟨h.1.ending?, fun result => report_like h.2 p result, h.2.environment⟩

theorem run_like (halike : environment.Like environment')
    (htime : environment'.time = environment.time) (e : Engine) (p : Prepared) (sink : Sink) :
    Option.Rel RunReport.Like (e.run p sink environment).1 (e.run p sink environment').1 ∧
      (e.run p sink environment).2.environment.Like (e.run p sink environment').2.environment := by
  obtain ⟨hresult, hworld⟩ := World.run_twin e.config.fanout (script_twin p)
    (World.like_start halike sink p.log) htime
  refine ⟨?_, hworld.environment⟩
  dsimp only [run]
  rw [hresult]
  cases ((World.start environment sink p.log).run e.config.fanout (script p)).1 with
  | none => exact .none
  | some result => exact .some (report_like hworld p result)

/-- **Best-effort services are invisible.** For every engine, prepared request
and sink, take two environments that are alike, which may differ in the
statistics, in the bill, in whether these can be written, and in the clock.
Follow one schedule in both, with the same moves, and with changes between
them that keep the surroundings alike: whatever calls of the two services fail
on the way, in each of the runs by a pattern of its own (`Tick.spoiled`), both
runs go equally far, and have the same to report but for times: the result,
the state and the error, the trace, the log with its errors, the counts, and
the session; and all sessions have the same totals. So do both runs on the
schedules that the engine makes for them. -/
theorem best_effort_invisible (e : Engine) (p : Prepared) (sink : Sink)
    (halike : environment.Like environment') :
    (∀ ticks ticks', List.Forall₂ Tick.Like ticks ticks' → Option.Rel (EquallyFar p)
        (World.follow? e.config.fanout ticks (.line (script p))
          (World.start environment sink p.log))
        (World.follow? e.config.fanout ticks' (.line (script p))
          (World.start environment' sink p.log))) ∧
      (environment'.time = environment.time →
        Option.Rel RunReport.Like (e.run p sink environment).1 (e.run p sink environment').1 ∧
          (e.run p sink environment).2.environment.Like
            (e.run p sink environment').2.environment) :=
  ⟨fun _ _ hticks => follow?_like halike hticks e p sink,
    fun htime => run_like halike htime e p sink⟩

/-- Bills cannot be written any more after the first 20 moves. -/
def billsLost (i : Nat) (c : ServiceCall) : Bool := c == .reportBilling && 20 ≤ i

/-- A run in which the second branch is first, with a pattern of failures. -/
def followSpoiled (pattern : Nat → ServiceCall → Bool) (p : Prepared) :
    Option (History Act Act.Reply × Process Act Act.Reply StepOutcome ×
      World Rehearsal.ScriptedModel) :=
  World.follow? echoing.config.fanout
    (Tick.spoiled pattern (secondFirst.map fun x => .move x.1 x.2)) (.line (script p))
    (World.start silentEnvironment .buffered p.log)

/-- How many bills are written in that run. -/
def billed? (pattern : Nat → ServiceCall → Bool) : Option Nat := do
  let p ← (echoing.prepareAllowed emptyServices echoed).toOption
  let x ← followSpoiled pattern p
  return x.2.2.store.billed.length

theorem followSpoiled_of_billed? {pattern : Nat → ServiceCall → Bool} {n : Nat}
    (hprepared : echoing.prepareAllowed emptyServices echoed = .ok p)
    (h : billed? pattern = some n) :
    ∃ x, followSpoiled pattern p = some x ∧ x.2.2.store.billed.length = n := by
  rw [billed?, hprepared] at h
  obtain ⟨_, hp, h⟩ := Option.bind_eq_some_iff.mp h
  obtain rfl := Option.some.inj hp
  obtain ⟨x, hx, hn⟩ := Option.bind_eq_some_iff.mp h
  exact ⟨x, hx, Option.some.inj hn⟩

/-- Two runs with the same report, of which the one has written three bills and the
other one was only able to write the first. -/
theorem best_effort_invisible_billed : ∃ p x x',
    echoing.prepareAllowed emptyServices echoed = .ok p ∧
      followSpoiled (fun _ _ => false) p = some x ∧ x.2.2.store.billed.length = 3 ∧
      followSpoiled billsLost p = some x' ∧ x'.2.2.store.billed.length = 1 ∧
      EquallyFar p x x' := by
  obtain ⟨p, -, -, -, hprepared, -⟩ := exists_run
  have hall : billed? (fun _ _ => false) = some 3 := by decide +kernel
  have hfew : billed? billsLost = some 1 := by decide +kernel
  obtain ⟨x, hx, hbilled⟩ := followSpoiled_of_billed? hprepared hall
  obtain ⟨x', hx', hlost⟩ := followSpoiled_of_billed? hprepared hfew
  obtain ⟨hfollow, -⟩ :=
    best_effort_invisible echoing p .buffered (Environment.Like.refl silentEnvironment)
  have hticks : ∀ t ∈ secondFirst.map fun x => (Tick.move x.1 x.2 : Tick Rehearsal.ScriptedModel),
      t.Like t := by
    intro t ht
    obtain ⟨x, -, rfl⟩ := List.mem_map.mp ht
    exact .move x.1 x.2
  have hboth := hfollow _ _ (Tick.forall₂_spoiled hticks (fun _ _ => false) billsLost)
  rw [← followSpoiled, ← followSpoiled, hx, hx'] at hboth
  cases hboth with
  | some hfar => exact ⟨p, x, x', hprepared, hx, hbilled, hx', hlost, hfar⟩

end Engine

end Ensemble
