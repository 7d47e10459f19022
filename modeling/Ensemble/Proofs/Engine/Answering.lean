import Ensemble.Proofs.Decode.Values
import Ensemble.Proofs.Engine.Streaming
import Ensemble.Proofs.Execution.Crashing
import Ensemble.Proofs.Process.Termination
import Ensemble.Proofs.Run.Ticks

/-!
# Requests are answered

A request that cannot be prepared is answered with what is wrong, before
anything was done (`Engine.Refuses`); one that can be prepared is answered
with a stream or with the last chunk of its run (`Engine.Serves`).

The two modes are compared on one schedule, given as ticks: the same moves,
and between them the same changes of the clocks, the stores and the models
(`follow?_modes`). So the one mode shows at the end of its stream what the
other one answers (`lines_of_follow?`). The schedules that the engine makes
for itself need not be the same in both modes, since a full channel holds
its writers up; they are schedules as any other (`follow?_of_run`).
-/

namespace Ensemble

/-- The answer to a run: its last chunk, and a status that says how it went. -/
structure RunReport.Answers (rep : RunReport) (response : Response) (last : Chunk) : Prop where
  final : rep.finalChunk? = some last
  body : response.body = .json last.toJson.canonical
  /-- A run has completed, or there is an error. -/
  decided : rep.state = .completed ↔ rep.error = none
  completed : rep.state = .completed → response.status = 200
  failed : ∀ err, rep.error = some err → response.status = err.status

namespace Engine

variable {M : Type} {e : Engine} {r : Request} {p : Prepared} {environment : Environment M}
  {err : FlowError}

/-! ## Requests that cannot be prepared -/

/-- What becomes of a request that cannot be prepared: nothing is done in
either mode, and the failure is the answer. -/
structure Refuses [LanguageModel M] (e : Engine) (r : Request) (environment : Environment M)
    (err : FlowError) : Prop where
  executed : ∀ sink, e.execute? r sink environment = some (.error err, environment)
  streamed : e.stream? r environment = some (.error err, environment)
  answered : e.handle? r environment
    = some (.json err.status (Chunk.ofError err).toJson.canonical, none, environment)

theorem refuses_of_prepare [LanguageModel M] (h : e.prepare? environment r = some (.error err)) :
    e.Refuses r environment err := by
  have hexecuted : ∀ sink, e.execute? r sink environment = some (.error err, environment) := by
    intro sink
    simp [execute?, h]
  have hstreamed : e.stream? r environment = some (.error err, environment) := by
    simp [stream?, h]
  refine ⟨hexecuted, hstreamed, ?_⟩
  rw [handle?]
  split
  · simp [hstreamed, Response.error]
  · simp [hexecuted, Response.error]

/-- The quota service is asked for its decision on the next run, and denies it. -/
structure Denies (services : Services) (now : Instant) (d : QuotaDecision) : Prop where
  asked : .checkQuota ∉ services.faults
  decided : ∃ windows, services.summary? now = some (.ok windows) ∧
    services.quota.decide windows.thisMonth = d
  denied : d.allowed = false

/-- A denial comes before everything else that may be wrong. -/
theorem prepare?_of_denies {d : QuotaDecision}
    (h : Denies environment.services environment.now d) (e : Engine) (r : Request) :
    e.prepare? environment r = some (.error (.quota
      { reason := d.reason.getD "token budget exhausted", used := d.used
        allowed := d.budget })) := by
  obtain ⟨hasked, ⟨windows, hsummary, rfl⟩, hdenied⟩ := h
  have hcheck : environment.services.checkQuota? environment.now
      = some (.error (.quota
        { reason := (environment.services.quota.decide windows.thisMonth).reason.getD
            "token budget exhausted"
          used := (environment.services.quota.decide windows.thisMonth).used
          allowed := (environment.services.quota.decide windows.thisMonth).budget })) := by
    simp [Services.checkQuota?, hsummary, hasked, QuotaDecision.check, hdenied]
  rw [prepare?, hcheck]

theorem prepareAllowed_of_prepare (h : e.prepare? environment r = some (.ok p)) :
    e.prepareAllowed environment.services r = .ok p := by
  unfold prepare? at h
  split at h
  · cases h
  · cases h
  · exact Option.some.inj h

/-! ## Answers to runs -/

theorem answers_of_story {rep : RunReport} (h : (∃ v, rep.Succeeded v) ∨ ∃ m, rep.Failed m) :
    ∃ last, rep.Answers (respond rep) last := by
  rcases h with ⟨v, hs⟩ | ⟨m, hf⟩
  · obtain ⟨time, hlast⟩ := hs.last
    have hrespond : respond rep = .final (.finalResponse rep.flow v time) := by
      rw [respond, hs.error, hlast]
    rw [hrespond]
    refine ⟨_, hlast, rfl, ?_, fun _ => rfl, ?_⟩
    · simp [hs.state, hs.error]
    · simp [hs.error]
  · obtain ⟨err, herr, rfl⟩ := Option.map_eq_some_iff.mp hf.error
    have hrespond : respond rep = .error err := by rw [respond, herr]
    rw [hrespond]
    refine ⟨_, hf.last, rfl, ?_, ?_, ?_⟩
    · simp [hf.state, herr]
    · simp [hf.state]
    · intro err' herr'
      obtain rfl := Option.some.inj (herr.symm.trans herr')
      rfl

theorem reads_of_drifts {w w' : World M} (h : World.Drifts w w') : w.sink.Reads w'.sink := by
  obtain ⟨d, rfl⟩ := h
  cases d with
  | elsewhere change => exact ⟨rfl, rfl, rfl⟩
  | take => exact Sink.reads_take _
  | takeAll => exact Sink.reads_takeAll _

/-- No run of a prepared request crashes but with its model. -/
theorem script_robust (h : e.prepareAllowed environment.services r = .ok p) :
    (script p).Robust Act.IsFault := by
  obtain ⟨master, inputs, -, hplan, -⟩ := prepareAllowed_eq_ok h
  refine (Execution.step_robust _ (Compile.compiled_binds hplan) []).andThen fun result => ?_
  refine Script.robust_andThen_prog (Prog.Safe.robust ?_) fun _ => .ret result
  cases result with
  | ok out => exact fun _ _ _ => trivial
  | error err => exact fun _ _ _ _ => trivial

section Runs

variable [LanguageModel M] {sink : Sink} {ticks : List (Tick M)} {h : History Act Act.Reply}
  {q : Process Act Act.Reply StepOutcome} {result : Except FlowError StepOutcome}
  {w w' : World M} {capacity : Nat}

/-- Runs a prepared request on a schedule: what was performed, what is left
to do, and the world after it. -/
def follow? (e : Engine) (p : Prepared) (sink : Sink) (environment : Environment M)
    (ticks : List (Tick M)) :
    Option (History Act Act.Reply × Process Act Act.Reply StepOutcome × World M) :=
  World.follow? e.config.fanout ticks (.line (script p)) (World.start environment sink p.log)

theorem run_of_follow? (hfollow : e.follow? p sink environment ticks = some (h, q, w)) :
    Process.Run e.config.fanout World.perform World.Drifts (.line (script p))
      (World.start environment sink p.log) h q w :=
  World.run_of_follow? .start hfollow

/-- What the engine itself runs is a schedule. -/
theorem follow?_of_run {rep : RunReport} (hrun : e.run p sink environment = (some rep, w)) :
    ∃ ticks h result, e.follow? p sink environment ticks = some (h, .line (.ret result), w) ∧
      rep = report p result w := by
  obtain ⟨h, result, hruns, hrep⟩ := run_runs hrun
  obtain ⟨ticks, hticks⟩ := World.follow?_of_run (hruns.mono fun _ _ => World.drifts_of_machine)
  exact ⟨ticks, h, result, hticks, hrep⟩

theorem answers_of_follow? (hprepared : e.prepareAllowed environment.services r = .ok p)
    (hsink : sink.chunks = [])
    (hfollow : e.follow? p sink environment ticks = some (h, .line (.ret result), w)) :
    ∃ last, (report p result w).Answers (respond (report p result w)) last := by
  have hrun := run_of_follow? hfollow
  have hdrift : ∀ w w' : World M, World.Drifts w w' → w'.log = w.log := by
    rintro w w' ⟨d, rfl⟩
    cases d <;> rfl
  obtain ⟨before, hc⟩ := concluded_of_run hsink (fun _ _ hd => (reads_of_drifts hd).chunks) hrun
  exact answers_of_story (story_of_concluded hprepared hc (World.log_of_run hdrift hrun))

/-! ## Both modes -/

/-- On a sink that streams, the same schedule leads to the same. -/
theorem follow?_modes (e : Engine) (p : Prepared) (environment : Environment M)
    (ticks : List (Tick M)) (capacity : Nat) :
    (e.follow? p .buffered environment ticks).map (fun x => (x.1, x.2.1, x.2.2.environment))
      = (e.follow? p (.streaming capacity) environment ticks).map
          fun x => (x.1, x.2.1, x.2.2.environment) := by
  have halike := World.alike_start environment p.log capacity
  refine Option.ext fun y => ?_
  simp only [Option.map_eq_some_iff]
  constructor
  · rintro ⟨⟨h, q, w⟩, hfollow, rfl⟩
    obtain ⟨w', hfollow', hw⟩ := World.follow?_alike halike hfollow
    exact ⟨_, hfollow', by rw [hw.rest]⟩
  · rintro ⟨⟨h, q, w⟩, hfollow, rfl⟩
    obtain ⟨w', hfollow', hw⟩ := World.follow?_alike halike.symm hfollow
    exact ⟨_, hfollow', by rw [hw.rest]⟩

/-- On one schedule, what is streamed is what is recorded alone. -/
theorem lines_of_follow?
    (hfollow : e.follow? p .buffered environment ticks = some (h, .line (.ret result), w))
    (hfollow' : e.follow? p (.streaming capacity) environment ticks
      = some (h, .line (.ret result), w')) :
    w'.sink.lines = w.sink.chunks.map Chunk.line ∧ report p result w' = report p result w := by
  obtain ⟨w₂, hsame, hw⟩ :=
    World.follow?_alike (World.alike_start environment p.log capacity) hfollow
  obtain rfl : w₂ = w' := by
    have hlast := hsame.symm.trans hfollow'
    simpa using hlast
  obtain ⟨-, hwhole⟩ := closed_of_run (fun _ _ => reads_of_drifts) (run_of_follow? hfollow')
  refine ⟨by rw [hwhole, hw.sink.chunks], ?_⟩
  simp only [report]
  rw [hw.sink.chunks, hw.rest]

/-- What becomes of a request that was prepared. -/
structure Serves (e : Engine) (r : Request) (environment : Environment M) (p : Prepared) :
    Prop where
  /-- A request for a stream gets one. When its run has come to its end, it is the whole trace. -/
  stream : r.isStreaming = true → ∃ lines after,
    e.handle? r environment = some (.stream, some lines, after) ∧
      ∀ rep w, e.run p (.streaming e.config.streamBuffer) environment = (some rep, w) →
        lines = rep.trace.map Chunk.line ∧ after = w.environment
  /-- Any other request gets the answer to its run: its last chunk. -/
  json : r.isStreaming = false →
    (e.handle? r environment = (e.run p .buffered environment).1.map fun rep =>
      (respond rep, none, (e.run p .buffered environment).2.environment)) ∧
    ∀ rep w, e.run p .buffered environment = (some rep, w) →
      ∃ last, rep.Answers (respond rep) last
  /-- The engine runs requests on schedules of its own. -/
  scheduled : ∀ sink rep w, e.run p sink environment = (some rep, w) → ∃ ticks h result,
    e.follow? p sink environment ticks = some (h, .line (.ret result), w) ∧
      rep = report p result w
  /-- On no schedule does a run go on for ever. -/
  ends : Acc (Process.Next e.config.fanout) (.line (script p))
  /-- A run that has not ended can go on, if need be once the reader has made room in its channel. -/
  goesOn : ∀ sink ticks h q w, e.follow? p sink environment ticks = some (h, q, w) →
    q.ending? = none → q.CanMove e.config.fanout World.perform w
  /-- A run ends with a result, unless its outermost task waits for a model that crashes. -/
  crashes : ∀ sink ticks h q w, e.follow? p sink environment ticks = some (h, q, w) →
    q.ending? = some .crashed → ∃ x, ([], x) ∈ h ∧ x.act.IsFault x.reply
  /-- A run that ends with a result has an answer. -/
  answers : ∀ sink ticks h result w, sink.chunks = [] →
    e.follow? p sink environment ticks = some (h, .line (.ret result), w) →
      ∃ last, (report p result w).Answers (respond (report p result w)) last
  /-- On one schedule both modes do the same. -/
  modes : ∀ ticks capacity,
    (e.follow? p .buffered environment ticks).map (fun x => (x.1, x.2.1, x.2.2.environment))
      = (e.follow? p (.streaming capacity) environment ticks).map
          fun x => (x.1, x.2.1, x.2.2.environment)
  /-- So the stream shows the trace of the other mode, and its last line is the answer. -/
  lines : ∀ ticks capacity h result w w',
    e.follow? p .buffered environment ticks = some (h, .line (.ret result), w) →
    e.follow? p (.streaming capacity) environment ticks = some (h, .line (.ret result), w') →
      w'.sink.lines = w.sink.chunks.map Chunk.line ∧ report p result w' = report p result w ∧
        ∃ last, (report p result w).Answers (respond (report p result w)) last ∧
          w'.sink.lines.getLast? = some last.line ∧
          (last.toJson.IsWhole → last.toJson.depth ≤ Document.maxDepth →
            Json.parse? last.line = some last.toJson.canonical)

theorem parse?_line {c : Chunk} (hwhole : c.toJson.IsWhole)
    (hdepth : c.toJson.depth ≤ Document.maxDepth) :
    Json.parse? c.line = some c.toJson.canonical := by
  rw [Json.parse?, Chunk.line, String.toList_ofList,
    Json.parse?_compact hwhole hdepth (Or.inr rfl), Option.bind_some, Document.free?_ofJson]

/-- A request that was prepared is served. -/
theorem serves_of_prepare (h : e.prepare? environment r = some (.ok p)) :
    e.Serves r environment p := by
  have hprepared := prepareAllowed_of_prepare h
  refine ⟨?_, ?_, fun _ _ _ => follow?_of_run, Script.acc_next .., ?_, ?_, ?_,
    follow?_modes e p environment, ?_⟩
  · intro hstreaming
    refine ⟨(e.run p (.streaming e.config.streamBuffer) environment).2.sink.lines,
      (e.run p (.streaming e.config.streamBuffer) environment).2.environment,
      by simp [handle?, stream?, h, hstreaming, Sink.lines], fun rep w hrun => ?_⟩
    rw [hrun]
    obtain ⟨ticks, hist, result, hfollow, rfl⟩ := follow?_of_run hrun
    exact ⟨(closed_of_run (fun _ _ => reads_of_drifts) (run_of_follow? hfollow)).2, rfl⟩
  · intro hjson
    refine ⟨?_, fun rep w hrun => ?_⟩
    · cases hrun : (e.run p .buffered environment).1 <;>
        simp [handle?, execute?, h, hjson, hrun]
    · obtain ⟨ticks, hist, result, hfollow, rfl⟩ := follow?_of_run hrun
      exact answers_of_follow? hprepared rfl hfollow
  · intro sink ticks hist q w hfollow hending
    exact (run_of_follow? hfollow).reaches.can_move hending
  · intro sink ticks hist q w hfollow hending
    exact (script_robust hprepared).fault_of_crash ⟨q, (run_of_follow? hfollow).reaches, hending⟩
  · exact fun sink ticks hist result w hsink hfollow => answers_of_follow? hprepared hsink hfollow
  · intro ticks capacity hist result w w' hfollow hfollow'
    obtain ⟨hlines, hreport⟩ := lines_of_follow? hfollow hfollow'
    obtain ⟨last, hanswers⟩ := answers_of_follow? hprepared rfl hfollow
    refine ⟨hlines, hreport, last, hanswers, ?_, parse?_line⟩
    rw [hlines, List.getLast?_map]
    exact congrArg (Option.map Chunk.line) hanswers.final

end Runs

/-- **Requests are answered.** For every engine, request and environment:

If the request cannot be prepared, nothing is done in either mode, and the
answer is the failure as a JSON value with its status, also to a request for
a stream. If the quota service denies the run, then that is the failure,
whatever else may be wrong.

If the request can be prepared, a request for a stream gets a stream, and any
other one the last chunk of its run, with the status 200 if the run has
completed and the status of its error otherwise. On every schedule such a
run comes to its end and has an answer, unless a model crashes; and on one
schedule, with the same surroundings, a stream consists of the lines of the
trace that is recorded in the other mode, so its last line holds the object
that the other mode answers. -/
theorem request_answered {M : Type} [LanguageModel M] (e : Engine) (r : Request)
    (environment : Environment M) :
    (∀ err, e.prepare? environment r = some (.error err) → e.Refuses r environment err) ∧
      (∀ d, Denies environment.services environment.now d →
        e.prepare? environment r = some (.error (.quota
          { reason := d.reason.getD "token budget exhausted", used := d.used
            allowed := d.budget }))) ∧
      ∀ p, e.prepare? environment r = some (.ok p) → e.Serves r environment p :=
  ⟨fun _ => refuses_of_prepare, fun _ h => prepare?_of_denies h e r, fun _ => serves_of_prepare⟩

/-- How many chunks the run of a request has when its models repeat what they are told. -/
def echoes? (r : Request) (sink : Sink) : Option Nat := do
  let p ← (echoing.prepareAllowed emptyServices r).toOption
  let rep ← (echoing.run p sink silentEnvironment).1
  return rep.trace.length

theorem run_of_echoes (r : Request) (sink : Sink) {n : Nat} (h : echoes? r sink = some n) :
    ∃ p rep w, echoing.prepare? silentEnvironment r = some (.ok p) ∧
      echoing.run p sink silentEnvironment = (some rep, w) ∧ rep.trace.length = n := by
  simp only [echoes?, Option.bind_eq_bind, Option.pure_def, Option.bind_eq_some_iff,
    Option.some.injEq] at h
  obtain ⟨p, hp, rep, hrep, hlength⟩ := h
  refine ⟨p, rep, _, ?_, Prod.ext hrep rfl, hlength⟩
  have hallowed :
      silentEnvironment.services.checkQuota? silentEnvironment.now = some (.ok ()) := rfl
  rw [prepare?, hallowed]
  cases hprepared : echoing.prepareAllowed emptyServices r with
  | error err => rw [hprepared] at hp; cases hp
  | ok p' =>
      rw [hprepared] at hp
      obtain rfl := Option.some.inj hp
      exact congrArg some hprepared

/-- The surroundings in which all runs are denied. -/
def spentEnvironment : Environment Rehearsal.ScriptedModel :=
  { silentEnvironment with services := { emptyServices with quota := .refuse 7 5 none } }

/-- A request that is answered with a stream of seven lines, with the last of
seven chunks, and with a refusal. -/
theorem request_answered_echoed :
    (∃ lines after, echoing.handle? echoed silentEnvironment = some (.stream, some lines, after) ∧
        lines.length = 7) ∧
      (∃ rep last after, echoing.handle? { echoed with outputMode := .buffer } silentEnvironment
          = some (respond rep, none, after) ∧
        rep.trace.length = 7 ∧ rep.Answers (respond rep) last) ∧
      (echoing.handle? echoed spentEnvironment).map (fun x => x.1.status) = some 403 := by
  have hstreamed : echoes? echoed (.streaming echoing.config.streamBuffer) = some 7 := by
    decide +kernel
  have hbuffered : echoes? { echoed with outputMode := .buffer } .buffered = some 7 := by
    decide +kernel
  refine ⟨?_, ?_, ?_⟩
  · obtain ⟨p, rep, w, hprepared, hrun, hlength⟩ :=
      run_of_echoes echoed (.streaming echoing.config.streamBuffer) hstreamed
    obtain ⟨-, -, hserves⟩ := request_answered echoing echoed silentEnvironment
    obtain ⟨lines, after, hhandle, hlines⟩ := (hserves p hprepared).stream rfl
    refine ⟨lines, after, hhandle, ?_⟩
    rw [(hlines rep w hrun).1, List.length_map, hlength]
  · obtain ⟨p, rep, w, hprepared, hrun, hlength⟩ :=
      run_of_echoes { echoed with outputMode := .buffer } .buffered hbuffered
    obtain ⟨-, -, hserves⟩ :=
      request_answered echoing { echoed with outputMode := .buffer } silentEnvironment
    obtain ⟨hhandle, hanswers⟩ := (hserves p hprepared).json rfl
    obtain ⟨last, hlast⟩ := hanswers rep w hrun
    rw [hrun] at hhandle
    exact ⟨rep, last, w.environment, hhandle, hlength, hlast⟩
  · have hdenies : Denies spentEnvironment.services spentEnvironment.now
        { allowed := false, used := 7, budget := 5, reason := none } :=
      ⟨by decide, ⟨_, rfl, rfl⟩, rfl⟩
    obtain ⟨hrefuses, hdenied, -⟩ := request_answered echoing echoed spentEnvironment
    rw [(hrefuses _ (hdenied _ hdenies)).answered]
    rfl

end Engine

end Ensemble
