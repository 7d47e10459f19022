import Ensemble.Proofs.Engine.Preparation
import Ensemble.Proofs.Execution.Failures
import Ensemble.Proofs.Execution.Orderly
import Ensemble.Proofs.Plan.Validation
import Mathlib.Data.List.TFAE

/-!
# Reports tell one story

A run that has come to an end has performed what its root step has, and
then a few acts that only depend on the result (`script_concludes`). Its
trace, log and counts are what these acts have made of them, so what is
known of steps is known of reports: the trace is in order
(`Plan.Shows`), and state, result, error, trace, log and counts agree
on how the run went (`run_coherent`).
-/

namespace Ensemble

/-! ## Traces of plans -/

/-- Whether a chunk shows the start of a step. -/
def Chunk.starts (step : String) : Chunk → Bool
  | .flowStart _ shown _ _ => shown == step
  | _ => false

/-- What a run of a plan shows: its calls as they start, their answers, and
one chunk that ends it. -/
structure Plan.Shows (plan : Plan) (trace : List Chunk) : Prop where
  shape : ∃ shown last, trace = shown ++ [last] ∧ last.isTerminal = true ∧
    ∀ c ∈ shown, c.kind = .flowStart ∨ c.kind = .stepFinish
  /-- Only calls of the plan start, each at most once. -/
  started : ∀ agent step input time, Chunk.flowStart agent step input time ∈ trace →
    ∃ c ∈ plan.root.calls, c.agent = agent ∧ c.name = step
  once : ∀ step, trace.countP (Chunk.starts step) ≤ 1
  /-- Answers for a call come behind its start, under the name of its agent. -/
  announced : ∀ before after name model step messages usage reason time,
    trace = before ++ .stepFinish name model step messages usage reason time :: after →
    ∃ c ∈ plan.root.calls, c.agent = name ∧ c.name = step ∧
      ∃ input time, Chunk.flowStart name step input time ∈ before

namespace RunReport

/-- A run that went well, with the result `v`. -/
structure Succeeded (rep : RunReport) (v : Json) : Prop where
  state : rep.state = .completed
  result : rep.result = some v
  error : rep.error = none
  last : ∃ time, rep.finalChunk? = some (.finalResponse rep.flow v time)
  ok : rep.log.ok = true

/-- A run that has failed, with the message `m`. -/
structure Failed (rep : RunReport) (m : String) : Prop where
  state : rep.state = .failed m
  result : rep.result = none
  error : rep.error.map FlowError.message = some m
  last : rep.finalChunk? = some (.error m)
  ok : rep.log.ok = false
  noted : rep.log.errors.getLast? = some m

/-- The signs of a run that went well: all together, and each for itself. -/
def signs (rep : RunReport) : List Prop :=
  [∃ v, rep.Succeeded v,
    rep.state = .completed,
    ∃ v, rep.result = some v ∧ rep.error = none,
    ∃ flow v time, rep.finalChunk? = some (.finalResponse flow v time),
    rep.log.ok = true]

/-- A report in which everything agrees on how the run of a plan went. -/
structure Coherent (plan : Plan) (rep : RunReport) : Prop where
  trace : plan.Shows rep.trace
  verdict : rep.signs.TFAE
  failure : rep.state ≠ .completed → ∃ m, rep.Failed m
  /-- Each call of a completed run is shown once and counted once. -/
  numbers : rep.state = .completed →
    (∀ c ∈ plan.root.calls, rep.trace.countP (Chunk.starts c.name) = 1) ∧
      (ChunkCounts.ofTrace rep.trace).flowStart = rep.counts.agentCalls ∧
      rep.counts.agentCalls = plan.outline.calls

variable {rep : RunReport}

/-- One sign is as good as all of them. -/
theorem signs_of_story (h : (∃ v, rep.Succeeded v) ∨ ∃ m, rep.Failed m) : rep.signs.TFAE := by
  rcases h with ⟨v, hs⟩ | ⟨m, hf⟩
  · obtain ⟨time, hlast⟩ := hs.last
    refine List.tfae_of_forall True _ ?_
    simp only [signs, List.forall_mem_cons, iff_true, List.not_mem_nil, false_imp_iff,
      implies_true, and_true]
    exact ⟨⟨v, hs⟩, hs.state, ⟨v, hs.result, hs.error⟩, ⟨_, v, time, hlast⟩, hs.ok⟩
  · refine List.tfae_of_forall False _ ?_
    simp only [signs, List.forall_mem_cons, iff_false, List.not_mem_nil, false_imp_iff,
      implies_true, and_true]
    refine ⟨?_, ?_, ?_, ?_, ?_⟩
    · rintro ⟨v, hs⟩
      cases hs.state.symm.trans hf.state
    · rw [hf.state]
      simp
    · rw [hf.result]
      simp
    · rw [hf.last]
      simp
    · rw [hf.ok]
      simp

end RunReport

/-- Answers are announced in a trace as they are in the acts. -/
theorem announced_of_trace {trace : List Chunk} {acts : List Act}
    (htrace : trace.map Chunk.act = acts.filter Act.writes)
    (hannounced : Announced acts) {before after : List Chunk} {name model step reason : String}
    {messages : List Message} {usage : Tokens} {time : Instant}
    (hsplit : trace = before ++ .stepFinish name model step messages usage reason time :: after) :
    ∃ input time, Chunk.flowStart name step input time ∈ before := by
  rw [hsplit, List.map_append, List.map_cons] at htrace
  obtain ⟨acts₁, acts₂, rfl, hbefore, hrest⟩ := List.filter_eq_append_iff.mp htrace.symm
  obtain ⟨acts₃, acts₄, rfl, hsilent, -, -⟩ := List.filter_eq_cons_iff.mp hrest
  obtain ⟨input, hmem⟩ := hannounced (acts₁ ++ acts₃) acts₄ name model step messages usage reason
    (List.append_assoc ..).symm
  -- a start is written, so it is not among the silent acts just before the answer
  rcases List.mem_append.mp hmem with hmem | hmem
  · obtain ⟨time, hstart⟩ := start_mem_of_map
      (hbefore ▸ List.mem_filter.mpr ⟨hmem, rfl⟩ : Act.emitStart name step input ∈ _)
    exact ⟨input, time, hstart⟩
  · exact absurd rfl (hsilent _ hmem)

namespace Engine

variable {e : Engine} {services : Services} {r : Request} {p : Prepared}

/-! ## How a run ends -/

/-- The chunk that ends a run, as it is written. -/
def verdictAct (p : Prepared) : Except FlowError StepOutcome → Act
  | .ok out => .emitFinal p.plan.name out.value
  | .error e => .emitError e.message

/-- What a run performs once its root step has ended. -/
def closing (p : Prepared) (result : Except FlowError StepOutcome) : List Act :=
  verdictAct p result :: match result with
    | .ok _ => [.finalize p.request.session, .close]
    | .error e => [.logError e.message, .finalize p.request.session, .close]

theorem conclude_ends {result : Except FlowError StepOutcome}
    {xs : List (Exchange Act Act.Reply)} {out : Option Unit}
    (he : (conclude p result).Ends xs out) : xs.map Exchange.act = closing p result := by
  cases result with
  | ok out =>
      obtain ⟨_, xs₁, rfl, he₁⟩ := Prog.ends_act he
      obtain ⟨_, xs₂, rfl, he₂⟩ := Prog.ends_act he₁
      obtain ⟨_, xs₃, rfl, he₃⟩ := Prog.ends_act he₂
      obtain ⟨rfl, -⟩ := Prog.ends_ret he₃
      rfl
  | error err =>
      obtain ⟨_, xs₁, rfl, he₁⟩ := Prog.ends_act he
      obtain ⟨_, xs₂, rfl, he₂⟩ := Prog.ends_act he₁
      obtain ⟨_, xs₃, rfl, he₃⟩ := Prog.ends_act he₂
      obtain ⟨_, xs₄, rfl, he₄⟩ := Prog.ends_act he₃
      obtain ⟨rfl, -⟩ := Prog.ends_ret he₄
      rfl

/-- The end of a run comes behind all that its root step has performed. -/
theorem script_concludes {policy : FailurePolicy} {h : History Act Act.Reply}
    {result : Except FlowError StepOutcome}
    (he : (script p).Ends policy h (.ofResult result)) :
    ∃ before, (Execution.step p.registry p.plan.root []).Ends policy before (.ofResult result) ∧
      History.acts h = History.acts before ++ closing p result := by
  rcases Script.ends_andThen he with ⟨-, hcrash⟩ | ⟨before, later, result', rfl, hroot, hlast⟩
  · cases result <;> cases hcrash
  rcases Script.ends_prog hlast with ⟨xs, -, -, hcrash⟩ | ⟨xs, u, rest, hxs, rfl, hret⟩
  · cases result <;> cases hcrash
  obtain ⟨rfl, hresult⟩ := Script.ends_ret hret
  obtain rfl := Ending.ofResult_injective hresult
  refine ⟨before, hroot, ?_⟩
  rw [History.acts_append, List.append_nil, History.acts_own, conclude_ends hxs]

/-- On any schedule a run fails as one of the calls of its plan does, or because
a branch was dropped. -/
theorem fails_of_run {W : Type} {config : FanoutConfig} {perform : (a : Act) → W → a.Reply × W}
    {drift : W → W → Prop} {w₀ w : W} {h : History Act Act.Reply} {err : FlowError}
    (hrun : Process.Run config perform drift (.line (script p)) w₀ h
      (.line (.ret (.error err))) w) :
    Execution.Fails p.registry p.plan.root.calls err := by
  have hends : (script p).Ends config.failure h (.ofResult (.error err)) := ⟨_, hrun.reaches, rfl⟩
  obtain ⟨before, hroot, -⟩ := script_concludes hends
  exact Execution.fails_of_ends p.plan.root hroot

theorem closing_closes (p : Prepared) (result : Except FlowError StepOutcome) {a : Act}
    (ha : a ∈ closing p result) : IsClosing a := by
  cases result <;>
    simp only [closing, verdictAct, List.mem_cons, List.not_mem_nil, or_false] at ha <;>
    rcases ha with rfl | rfl | rfl | rfl <;> trivial

theorem closing_writes (p : Prepared) (result : Except FlowError StepOutcome) :
    (closing p result).filter Act.writes = [verdictAct p result] := by
  cases result <;> rfl

/-- What is known of a plan that is ready to run. -/
theorem plan_of_prepared (hprepared : e.prepareAllowed services r = .ok p) :
    (p.plan.root.calls.map Call.name).Nodup ∧ p.plan.outline.calls = p.plan.root.calls.length := by
  obtain ⟨master, inputs, -, hplan, hvalid, -⟩ := prepareAllowed_eq_ok hprepared
  obtain ⟨f, -, -, hroot⟩ := Compile.compile_eq_ok hplan
  constructor
  · exact (Plan.validate_eq_ok_iff.mp hvalid).1.sublist p.plan.root.callNames_sublist
  · rw [hroot, Step.calls, List.length_filterMap_eq_countP]
    refine List.countP_congr fun s _ => ?_
    cases s <;> simp [Step.isCall, Step.call?]

/-- A run that has ended with a result: its root step has performed `before`,
and its trace shows all acts. -/
structure Concluded (p : Prepared) (policy : FailurePolicy)
    (result : Except FlowError StepOutcome) (before h : History Act Act.Reply)
    (trace : List Chunk) : Prop where
  root : (Execution.step p.registry p.plan.root []).Ends policy before (.ofResult result)
  acts : History.acts h = History.acts before ++ closing p result
  trace : trace.map Chunk.act = (History.acts h).filter Act.writes

namespace Concluded

variable {policy : FailurePolicy} {result : Except FlowError StepOutcome}
  {before h : History Act Act.Reply} {trace : List Chunk}

/-- Acts of steps are counted in the whole history. -/
theorem countP_acts (hc : Concluded p policy result before h trace) {q : Act → Bool}
    (hq : ∀ a, IsClosing a → q a = false) : (History.acts h).countP q = before.count q := by
  have hclosing : (closing p result).countP q = 0 :=
    List.countP_eq_zero.mpr fun a ha => by simp [hq a (closing_closes p result ha)]
  rw [hc.acts, List.countP_append, hclosing, Nat.add_zero, History.count_eq_countP]

/-- The starts of a trace are those of the root step. -/
theorem countP_shown (hc : Concluded p policy result before h trace) {q : Act → Bool}
    {shown : Chunk → Bool} (hshown : ∀ c, shown c = q c.act)
    (hstart : ∀ a, q a = true → a.isStart = true) : trace.countP shown = before.count q := by
  have hclosed : ∀ a, IsClosing a → q a = false := by
    intro a ha
    cases hq : q a with
    | false => rfl
    | true =>
        have hstarts := hstart a hq
        cases a <;> first | exact ha.elim | cases hstarts
  have hwrites : ∀ a, q a = true → a.writes = true := by
    intro a hq
    have ha := hstart a hq
    cases a <;> first | rfl | cases ha
  rw [countP_of_trace hc.trace hshown hwrites, hc.countP_acts hclosed]

theorem countP_starts (hc : Concluded p policy result before h trace) (step : String) :
    trace.countP (Chunk.starts step) = before.count (Act.starts step) :=
  hc.countP_shown (fun c => by cases c <;> rfl) fun a ha => by
    cases a <;> first | rfl | cases ha

theorem countP_flowStart (hc : Concluded p policy result before h trace) :
    (ChunkCounts.ofTrace trace).flowStart = before.count Act.isStart :=
  hc.countP_shown (fun c => by cases c <;> rfl) fun _ ha => ha

theorem shape (hc : Concluded p policy result before h trace) :
    ∃ shown last, trace = shown ++ [last] ∧ last.act = verdictAct p result ∧
      shown.map Chunk.act = (History.acts before).filter Act.writes := by
  have htrace := hc.trace
  rw [hc.acts, List.filter_append, closing_writes] at htrace
  obtain ⟨shown, rest, rfl, hshown, hrest⟩ := List.map_eq_append_iff.mp htrace
  obtain ⟨last, rfl, hlast⟩ := List.map_eq_singleton_iff.mp hrest
  exact ⟨shown, last, rfl, hlast, hshown⟩

/-- The chunk that a run ends with ends its trace. -/
theorem isTerminal_of_verdict {last : Chunk} (hlast : last.act = verdictAct p result) :
    last.isTerminal = true := by
  cases last with
  | flowStart name step input time => cases result <;> cases hlast
  | stepFinish name model step messages usage reason time => cases result <;> cases hlast
  | finalResponse name value time => rfl
  | error message => rfl

/-- The trace of a run shows its plan. -/
theorem shows (hprepared : e.prepareAllowed services r = .ok p)
    (hc : Concluded p policy result before h trace) : p.plan.Shows trace := by
  have hreach := Script.ends_ofResult.mp hc.root
  obtain ⟨hinner, hstarted, hannounced⟩ :=
    Execution.step_orderly (fun _ _ => name_of_prepared hprepared) p.plan.root [] before _ hreach
  -- nothing starts any more when the root step has ended
  have hstarts : ∀ agent step input time, Chunk.flowStart agent step input time ∈ trace →
      ∃ c ∈ p.plan.root.calls, c.agent = agent ∧ c.name = step := by
    intro agent step input time hmem
    have hact := hc.acts ▸ act_mem_of_trace hc.trace hmem
    rcases List.mem_append.mp hact with hact | hact
    · exact hstarted agent step input hact
    · exact (closing_closes p result hact).elim
  refine ⟨?_, hstarts, ?_, ?_⟩
  · obtain ⟨shown, last, hsplit, hlast, hshown⟩ := hc.shape
    refine ⟨shown, last, hsplit, isTerminal_of_verdict hlast, fun c hmem => ?_⟩
    have hin := hinner _ (act_mem_of_trace hshown hmem)
    cases c with
    | flowStart name step input time => exact Or.inl rfl
    | stepFinish name model step messages usage reason time => exact Or.inr rfl
    | finalResponse name result time => exact hin.elim
    | error message => exact hin.elim
  · intro step
    calc trace.countP (Chunk.starts step) = before.count (Act.starts step) := hc.countP_starts step
      _ ≤ p.plan.root.calls.countP (fun c => c.name == step) :=
          Execution.step_starts_le step p.plan.root [] before _ hreach
      _ = (p.plan.root.calls.map Call.name).count step := Step.countP_name ..
      _ ≤ 1 := List.nodup_iff_count_le_one.mp (plan_of_prepared hprepared).1 step
  · intro before' after name model step messages usage reason time hsplit
    have hall : Announced (History.acts h) := by
      rw [hc.acts]
      refine hannounced.append (.of_silent fun a ha name model step messages usage reason => ?_)
      rintro rfl
      exact closing_closes p result ha
    obtain ⟨input, time', hstart⟩ := announced_of_trace hc.trace hall hsplit
    obtain ⟨c, hmem, hagent, hname⟩ := hstarts name step input time'
      (hsplit ▸ List.mem_append_left _ hstart)
    exact ⟨c, hmem, hagent, hname, input, time', hstart⟩

/-- A completed run has shown and counted each call once. -/
theorem numbers (hprepared : e.prepareAllowed services r = .ok p) {out : StepOutcome}
    (hc : Concluded p policy (.ok out) before h trace) :
    (∀ c ∈ p.plan.root.calls, trace.countP (Chunk.starts c.name) = 1) ∧
      (ChunkCounts.ofTrace trace).flowStart = p.plan.outline.calls ∧
      h.count Act.isCount = p.plan.outline.calls := by
  obtain ⟨hnodup, hcalls⟩ := plan_of_prepared hprepared
  have htally : ∀ {m : Act → Bool} {q : Call → Bool}, Execution.Tallies m q →
      before.count m = p.plan.root.calls.countP q := fun ht =>
    ht.completed p.plan.root [] before out hc.root
  refine ⟨fun c hmem => ?_, ?_, ?_⟩
  · calc trace.countP (Chunk.starts c.name) = before.count (Act.starts c.name) :=
          hc.countP_starts c.name
      _ = p.plan.root.calls.countP (fun d => d.name == c.name) :=
          htally (Execution.tallies_starts c.name)
      _ = (p.plan.root.calls.map Call.name).count c.name := Step.countP_name ..
      _ = 1 := List.count_eq_one_of_mem hnodup (List.mem_map_of_mem hmem)
  · rw [hc.countP_flowStart, htally Execution.tallies_isStart, List.countP_true, hcalls]
  · rw [History.count_eq_countP, hc.countP_acts fun a ha => by
      cases a <;> first | rfl | exact ha.elim, htally Execution.tallies_isCount, List.countP_true,
      hcalls]

/-- The steps of a completed run have noted no failure. -/
theorem no_failure {out : StepOutcome} (hc : Concluded p policy (.ok out) before h trace) :
    (History.acts before).any Act.isFailure = false := by
  have hcount : before.count Act.isFailure = p.plan.root.calls.countP fun _ => false :=
    Execution.tallies_isFailure.completed p.plan.root [] before out hc.root
  rw [History.count_eq_countP, List.countP_false] at hcount
  exact List.any_eq_false.mpr (List.countP_eq_zero.mp hcount)

end Concluded

/-! ## Reports -/

section Report

variable {M : Type} {w : World M} {policy : FailurePolicy}
  {result : Except FlowError StepOutcome} {before h : History Act Act.Reply}

/-- What a report says of success or failure. -/
theorem story_of_concluded (hprepared : e.prepareAllowed services r = .ok p)
    (hc : Concluded p policy result before h w.sink.chunks)
    (hlog : w.log = Act.noteAll (History.acts h) p.log) :
    (∃ v, (report p result w).Succeeded v) ∨ ∃ m, (report p result w).Failed m := by
  obtain ⟨_, _, -, -, -, -, -, -, hstate, hok, -⟩ := prepareAllowed_eq_ok hprepared
  obtain ⟨shown, last, hsplit, hact, -⟩ := hc.shape
  have hlast : w.sink.chunks.getLast? = some last := hsplit ▸ List.getLast?_concat
  rw [hc.acts, Act.noteAll_append] at hlog
  cases result with
  | ok out =>
      refine Or.inl ⟨out.value, ?_, rfl, rfl, ?_, ?_⟩
      · simp [report, finalState, hstate, RunState.advance, RunState.move, RunState.canMoveTo]
      · cases last with
        | finalResponse name v time =>
            cases hact
            exact ⟨time, hlast⟩
        | _ => cases hact
      · -- the end of a good run notes nothing
        calc w.log.ok = (Act.noteAll (History.acts before) p.log).ok := congrArg RunLog.ok hlog
          _ = true := by rw [Act.noteAll_ok, hok, hc.no_failure]; rfl
  | error err =>
      refine Or.inr ⟨err.message, ?_, rfl, rfl, ?_, ?_, ?_⟩
      · simp [report, finalState, hstate, RunState.advance, RunState.move, RunState.canMoveTo]
      · cases last with
        | error message =>
            cases hact
            exact hlast
        | _ => cases hact
      · exact congrArg RunLog.ok hlog
      · calc w.log.errors.getLast?
            = ((Act.noteAll (History.acts before) p.log).errors ++ [err.message]).getLast? :=
              congrArg (fun l : RunLog => l.errors.getLast?) hlog
          _ = some err.message := List.getLast?_concat

theorem concluded_of_run [LanguageModel M] {config : FanoutConfig} {environment : Environment M}
    {sink : Sink} (hsink : sink.chunks = []) {drift : World M → World M → Prop}
    (hdrift : ∀ w w', drift w w' → w'.sink.chunks = w.sink.chunks)
    (hrun : Process.Run config World.perform drift (.line (script p))
      (World.start environment sink p.log) h (.line (.ret result)) w) :
    ∃ before, Concluded p config.failure result before h w.sink.chunks := by
  obtain ⟨before, hroot, hacts⟩ := script_concludes (Script.ends_ofResult.mpr hrun.reaches)
  have htrace := World.trace_of_run hdrift hrun
  rw [World.start, hsink, List.map_nil, List.nil_append] at htrace
  exact ⟨before, hroot, hacts, htrace⟩

theorem coherent_of_run [LanguageModel M] {environment : Environment M} {sink : Sink} (hsink : sink.chunks = [])
    {drift : World M → World M → Prop} (hdrift : ∀ w w', drift w w' → World.SameRecord w w')
    (hprepared : e.prepareAllowed services r = .ok p)
    (hrun : Process.Run e.config.fanout World.perform drift (.line (script p))
      (World.start environment sink p.log) h (.line (.ret result)) w) :
    (report p result w).Coherent p.plan := by
  obtain ⟨before, hc⟩ := concluded_of_run hsink (fun w w' hd => (hdrift w w' hd).chunks) hrun
  have hlog := World.log_of_run (fun w w' hd => (hdrift w w' hd).log) hrun
  have hcounts := World.agentCalls_of_run (fun w w' hd => (hdrift w w' hd).counts) hrun
  have hstory := story_of_concluded hprepared hc hlog
  refine ⟨hc.shows hprepared, RunReport.signs_of_story hstory, ?_, ?_⟩
  · intro hstate
    rcases hstory with ⟨v, hs⟩ | hf
    · exact absurd hs.state hstate
    · exact hf
  · intro hstate
    cases result with
    | ok out =>
        obtain ⟨honce, hstarts, hcount⟩ := hc.numbers hprepared
        have hcalls : w.counts.agentCalls = p.plan.outline.calls := by
          rw [hcounts, hcount]
          exact Nat.zero_add _
        exact ⟨honce, hstarts.trans hcalls.symm, hcalls⟩
    | error err =>
        rcases hstory with ⟨v, hs⟩ | ⟨m, hf⟩
        · cases hs.error
        · cases hstate.symm.trans hf.state

/-- **One story.** Take any run of a prepared request that has ended with a
result, on a sink without chunks: its moves may come in any order and under
either policy, branches may fail, crash or be dropped on its way, and
between two moves the world may change in all but what the run has shown,
noted and counted. Its report is coherent, and so is every report that the
engine gives. -/
theorem run_coherent {M : Type} [LanguageModel M]
    (hprepared : e.prepareAllowed services r = .ok p) {environment : Environment M} {sink : Sink}
    (hsink : sink.chunks = []) :
    (∀ (drift : World M → World M → Prop) (h : History Act Act.Reply)
        (result : Except FlowError StepOutcome) (w : World M),
        (∀ w w', drift w w' → World.SameRecord w w') →
        Process.Run e.config.fanout World.perform drift (.line (script p))
          (World.start environment sink p.log) h (.line (.ret result)) w →
        (report p result w).Coherent p.plan) ∧
      ∀ (rep : RunReport) (w : World M), e.run p sink environment = (some rep, w) →
        rep.Coherent p.plan := by
  constructor
  · intro drift h result w hdrift hrun
    exact coherent_of_run hsink hdrift hprepared hrun
  · intro rep w hrun
    obtain ⟨h, result, hruns, rfl⟩ := run_runs hrun
    exact coherent_of_run hsink (fun _ _ => World.sameRecord_of_drifts) hprepared hruns

/-- The first answer of the models makes its call crash. -/
def crashingEnvironment : Environment Rehearsal.ScriptedModel :=
  { silentEnvironment with
    model := { replies := [("", [{ Rehearsal.Reply.plain with crashes := true }])] } }

/-- A run in which three calls are answered, and one in which a branch crashes
while the other one is still answered. -/
theorem run_coherent_echoed :
    ∃ p, echoing.prepareAllowed emptyServices echoed = .ok p ∧
      (∃ (out : StepOutcome) (w : World Rehearsal.ScriptedModel),
        (report p (.ok out) w).trace.length = 7 ∧ (report p (.ok out) w).Coherent p.plan) ∧
      ∃ rep w, echoing.run p .buffered crashingEnvironment = (some rep, w) ∧
        rep.trace.length = 4 ∧ rep.Coherent p.plan ∧ ∃ m, rep.Failed m := by
  obtain ⟨p, w, h, out, hprepared, hrun, hlength⟩ := exists_run
  have hsink : Sink.buffered.chunks = [] := rfl
  have hcoherent := (run_coherent hprepared hsink).1 Eq h _ w (fun w _ hw => hw ▸ .refl w) hrun
  have hcrashing : (echoing.prepareAllowed emptyServices echoed).toOption.any (fun p =>
      (echoing.run p .buffered crashingEnvironment).1.any fun rep =>
        rep.trace.length == 4 && rep.state != .completed) = true := by
    decide +kernel
  rw [hprepared] at hcrashing
  obtain ⟨_, hp, hreport⟩ := (Option.any_eq_true ..).mp hcrashing
  obtain rfl := Option.some.inj hp
  obtain ⟨rep, hrep, hreport⟩ := (Option.any_eq_true ..).mp hreport
  obtain ⟨hshort, hstate⟩ := (Bool.and_eq_true ..).mp hreport
  have hrun' : echoing.run p .buffered crashingEnvironment
      = (some rep, (echoing.run p .buffered crashingEnvironment).2) := Prod.ext hrep rfl
  have hcoherent' := (run_coherent hprepared hsink).2 rep _ hrun'
  exact ⟨p, hprepared, ⟨out, w, hlength, hcoherent⟩, rep, _, hrun', eq_of_beq hshort, hcoherent',
    hcoherent'.failure (bne_iff_ne.mp hstate)⟩

end Report

end Engine

end Ensemble
