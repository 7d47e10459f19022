import Ensemble.Proofs.Process.Ending
import Ensemble.Proofs.Process.Schedule
import Ensemble.Proofs.Trace.Sink
import Ensemble.Run.World

/-!
# Traces and histories

The trace of a run is what its acts have written, in order: up to the times
of its chunks it is the list of all acts in the history that write
(`trace_of_run`). So what is shown of histories holds of traces. The times
themselves ascend, whatever the wall clock shows (`times_of_run`).
-/

namespace Ensemble

/-- The act that writes a chunk, which does not know its time. -/
def Chunk.act : Chunk → Act
  | .flowStart name step input _ => .emitStart name step input
  | .stepFinish name model step messages usage reason _ =>
    .emitFinish name model step messages usage reason
  | .finalResponse name result _ => .emitFinal name result
  | .error message => .emitError message

/-- The acts of a history, in order. -/
def History.acts (h : History Act Act.Reply) : List Act := h.map fun x => x.2.act

theorem History.acts_append (h h' : History Act Act.Reply) :
    History.acts (h ++ h') = History.acts h ++ History.acts h' := List.map_append

theorem History.acts_own (xs : List (Exchange Act Act.Reply)) :
    History.acts (History.own xs) = xs.map Exchange.act := List.map_map ..

/-! ## Chunks of acts -/

section Written

variable {trace : List Chunk} {acts : List Act}

theorem act_mem_of_trace (htrace : trace.map Chunk.act = acts.filter Act.writes) {c : Chunk}
    (hc : c ∈ trace) : c.act ∈ acts := by
  have hmem : c.act ∈ acts.filter Act.writes := htrace ▸ List.mem_map_of_mem hc
  exact (List.mem_filter.mp hmem).1

theorem start_mem_of_map {agent step : String} {input : Json}
    (h : Act.emitStart agent step input ∈ trace.map Chunk.act) :
    ∃ time, Chunk.flowStart agent step input time ∈ trace := by
  obtain ⟨c, hc, hact⟩ := List.mem_map.mp h
  cases c with
  | flowStart agent' step' input' time =>
      cases hact
      exact ⟨time, hc⟩
  | _ => cases hact

/-- Chunks are counted by the acts that have written them. -/
theorem countP_of_trace (htrace : trace.map Chunk.act = acts.filter Act.writes)
    {p : Act → Bool} {q : Chunk → Bool} (hq : ∀ c, q c = p c.act)
    (hp : ∀ a, p a = true → a.writes = true) : trace.countP q = acts.countP p := by
  calc trace.countP q = (trace.map Chunk.act).countP p := by
        rw [List.countP_map]
        exact congrArg (trace.countP ·) (funext hq)
    _ = (acts.filter Act.writes).countP p := by rw [htrace]
    _ = acts.countP p := by
        rw [List.countP_filter]
        refine List.countP_congr fun a _ => ?_
        cases ha : p a with
        | false => simp
        | true => simp [hp a ha]

/-- What is read off chunks is read off the acts that have written them. -/
theorem filterMap_of_trace (htrace : trace.map Chunk.act = acts.filter Act.writes) {γ : Type}
    {f : Act → Option γ} {g : Chunk → Option γ} (hg : ∀ c, g c = f c.act)
    (hf : ∀ a, a.writes = false → f a = none) : trace.filterMap g = acts.filterMap f := by
  calc trace.filterMap g = (trace.map Chunk.act).filterMap f := by
        rw [List.filterMap_map]
        exact congrArg (trace.filterMap ·) (funext hg)
    _ = (acts.filter Act.writes).filterMap f := by rw [htrace]
    _ = acts.filterMap f := by
        rw [List.filterMap_filter]
        refine List.filterMap_congr fun a _ => ?_
        cases ha : a.writes with
        | false => exact (hf a ha).symm
        | true => rfl

/-- What is shown of an answer: its agent, its step, and the messages of its
round. -/
structure ShownRound where
  agent : String
  step : String
  messages : List Message

/-- The answer that an act shows. -/
def Act.round? : Act → Option ShownRound
  | .emitFinish agent _ step messages _ _ => some { agent, step, messages }
  | _ => none

/-- The answer that a chunk shows. -/
def Chunk.round? : Chunk → Option ShownRound
  | .stepFinish agent _ step messages _ _ _ => some { agent, step, messages }
  | _ => none

theorem rounds_of_trace (htrace : trace.map Chunk.act = acts.filter Act.writes) :
    trace.filterMap Chunk.round? = acts.filterMap Act.round? := by
  refine filterMap_of_trace htrace (fun c => ?_) fun a ha => ?_
  · cases c <;> rfl
  · cases a <;> first | rfl | cases ha

end Written

/-! ## What acts write -/

/-- What an act does to the trace, when the wall clock shows `now`. -/
def Act.onSink (now : Instant) : Act → Sink → Sink
  | .emitStart agent step input, s => s.writeAt now (.flowStart agent step input)
  | .emitFinish agent model step messages usage reason, s =>
    s.writeAt now (.stepFinish agent model step messages usage reason)
  | .emitFinal flow result, s => s.writeAt now (.finalResponse flow result)
  | .emitError message, s => s.write (.error message)
  | .close, s => s.close
  | _, s => s

namespace World

variable {M : Type}

/-- Two worlds in which a run has shown, noted and counted the same. -/
structure SameRecord (w w' : World M) : Prop where
  chunks : w'.sink.chunks = w.sink.chunks
  log : w'.log = w.log
  counts : w'.counts = w.counts

theorem SameRecord.refl (w : World M) : SameRecord w w := ⟨rfl, rfl, rfl⟩

/-- Two worlds with one sink, log and counts. -/
structure Untouched (w w' : World M) : Prop where
  sink : w'.sink = w.sink
  log : w'.log = w.log
  counts : w'.counts = w.counts

theorem Untouched.refl (w : World M) : Untouched w w := ⟨rfl, rfl, rfl⟩

/-! The services keep no record of a run. -/

theorem serve_untouched {α : Type} {f : Services → α × Services} {w w' : World M} {a : α}
    (h : w.serve f = (a, w')) : Untouched w w' := by
  obtain rfl : (w.serve f).2 = w' := congrArg Prod.snd h
  exact ⟨rfl, rfl, rfl⟩

theorem invoke_untouched (tool : Tool) (args : Json) (context : ToolContext) (w : World M) :
    Untouched w (w.invoke tool args context).2 := by
  cases tool with
  | custom spec run => exact ⟨rfl, rfl, rfl⟩
  | saveResults usual =>
      rw [invoke]
      split
      · exact .refl w
      · dsimp only
        split <;> exact serve_untouched ‹_›

theorem recordSession_untouched (session agent : String) (delta : Tokens) (w : World M) :
    Untouched w (w.recordSession session agent delta).2 := by
  rw [recordSession]
  split <;> exact serve_untouched ‹_›

theorem finalize_untouched (session : String) (w : World M) :
    Untouched w (w.finalize session) := by
  rw [finalize]
  split
  · rename_i finalized w' hserve
    have hserved := serve_untouched hserve
    exact ⟨hserved.sink, hserved.log, hserved.counts⟩
  · exact serve_untouched ‹_›

variable [LanguageModel M]

/-- No act does more to the trace than it says. -/
theorem perform_sink (a : Act) (w : World M) :
    (perform a w).2.sink = a.onSink w.environment.now w.sink := by
  cases a with
  | invoke tool args context => exact (invoke_untouched tool args context w).sink
  | recordSession session agent delta => exact (recordSession_untouched session agent delta w).sink
  | finalize session => exact (finalize_untouched session w).sink
  | _ => rfl

/-- An act that writes adds its own chunk, and no other act changes the
trace. -/
theorem perform_trace (a : Act) (w : World M) :
    (perform a w).2.sink.chunks.map Chunk.act
      = w.sink.chunks.map Chunk.act ++ if a.writes then [a] else [] := by
  rw [perform_sink]
  cases a <;> simp [Act.onSink, Act.writes, Chunk.act, Sink.close]

/-- The trace of a run is what the acts of its history have written. -/
theorem trace_of_run {β : Type} {config : FanoutConfig} {drift : World M → World M → Prop}
    {p₀ p : Process Act Act.Reply β} {w₀ w : World M} {h : History Act Act.Reply}
    (hdrift : ∀ w w', drift w w' → w'.sink.chunks = w.sink.chunks)
    (hrun : Process.Run config perform drift p₀ w₀ h p w) :
    w.sink.chunks.map Chunk.act
      = w₀.sink.chunks.map Chunk.act ++ (History.acts h).filter Act.writes := by
  refine hrun.along (fun h w => w.sink.chunks.map Chunk.act
    = w₀.sink.chunks.map Chunk.act ++ (History.acts h).filter Act.writes) ?_ ?_ ?_
  · exact (List.append_nil _).symm
  · intro h w w' hw hd
    rw [hdrift w w' hd, hw]
  · intro h w task a hw
    rw [perform_trace, hw, History.acts_append, List.filter_append, List.append_assoc]
    congr 2
    cases hwrites : a.writes <;> simp [History.acts, hwrites]

/-- An act keeps the times of a trace in order. -/
theorem timed_act {s : Sink} (hs : s.Timed) (a : Act) (now : Instant) : (a.onSink now s).Timed := by
  cases a with
  | emitStart agent step input => exact hs.writeAt (fun _ => rfl) now
  | emitFinish agent model step messages usage reason => exact hs.writeAt (fun _ => rfl) now
  | emitFinal flow result => exact hs.writeAt (fun _ => rfl) now
  | emitError message => exact hs.write rfl
  | close => exact ⟨hs.ascending, hs.last⟩
  | _ => exact hs

/-- The times of a trace ascend along every run. -/
theorem times_of_run {β : Type} {config : FanoutConfig}
    {drift : World M → World M → Prop} {p₀ p : Process Act Act.Reply β} {w₀ w : World M}
    {h : History Act Act.Reply} (hdrift : ∀ w w', drift w w' → w.sink.Abides w'.sink)
    (hfresh : w₀.sink.chunks = [])
    (hrun : Process.Run config perform drift p₀ w₀ h p w) : w.sink.Timed := by
  refine hrun.along (fun _ w => w.sink.Timed) (Sink.timed_of_fresh hfresh) ?_ ?_
  · exact fun _ w w' hw hd => hw.abides (hdrift w w' hd)
  · intro _ w _ a hw
    rw [perform_sink]
    exact timed_act hw a _

/-! ## Runs on a schedule -/

/-- Readers take lines, and leave the record of the run. -/
theorem sameRecord_of_drifts {w w' : World M} (hdrift : machine.Drifts w w') :
    SameRecord w w' := by
  rcases hdrift with rfl | ⟨time, rfl⟩ <;> exact ⟨rfl, rfl, rfl⟩

/-- What `World.run` has run to its end is a run with that result. -/
theorem run_runs {β : Type} {config : FanoutConfig} {script : Script Act Act.Reply β}
    {w w' : World M} {result : Except FlowError β} (h : w.run config script = (some result, w')) :
    ∃ hist, Process.Run config perform machine.Drifts (.line script) w hist
      (.line (.ret result)) w' := by
  unfold run at h
  split at h
  · cases h
  · rename_i s hrun
    obtain ⟨hist, hprocess⟩ := Schedule.run?_runs hrun
    obtain ⟨hending, rfl⟩ : s.process.ending? = some (.ofResult result) ∧ s.world = w' := by
      split at h
      · rename_i value hvalue
        obtain ⟨hresult, hworld⟩ := Prod.mk.inj h
        exact ⟨Option.some.inj hresult ▸ hvalue, hworld⟩
      · rename_i error herror
        obtain ⟨hresult, hworld⟩ := Prod.mk.inj h
        exact ⟨Option.some.inj hresult ▸ herror, hworld⟩
      · cases h
    rcases Process.ending?_eq_some hending with ⟨result', hret, heq⟩ | ⟨-, hcrash⟩
    · obtain rfl := Ending.ofResult_injective heq
      exact ⟨hist, hret ▸ hprocess⟩
    · cases result <;> cases hcrash

end World

end Ensemble
