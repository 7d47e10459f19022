import Ensemble.Proofs.Engine.Report
import Ensemble.Proofs.Execution.Answers
import Ensemble.Proofs.Trace.Stream

/-!
# Streams of runs

A stream is a faithful prefix of its trace, whatever happens to its sink,
and if the reader stays to the end it is the whole trace
(`stream_shows_trace`). A run closes its stream with its last act, so up to
that act all that it writes is sent (`Streamed`).
-/

namespace Ensemble

namespace Sink

variable {s s' : Sink}

/-- At most lines were read. -/
structure Reads (s s' : Sink) : Prop where
  chunks : s'.chunks = s.chunks
  writing : s'.writing = s.writing
  channel : s'.channel.map (fun c => (c.sent, c.hungUp)) = s.channel.map fun c => (c.sent, c.hungUp)

theorem Reads.symm (h : s.Reads s') : s'.Reads s :=
  ⟨h.chunks.symm, h.writing.symm, h.channel.symm⟩

theorem Reads.lines (h : s.Reads s') : s'.lines = s.lines := by
  have hsent := congrArg (Option.map Prod.fst) h.channel
  rw [Option.map_map, Option.map_map] at hsent
  exact congrArg (Option.getD · []) hsent

theorem Reads.isOpen (h : s.Reads s') (hs : s.IsOpen) : s'.IsOpen := by
  obtain ⟨hwriting, c, hc, hup⟩ := hs
  refine ⟨h.writing.trans hwriting, ?_⟩
  have hchannel := h.channel
  rw [hc] at hchannel
  obtain ⟨d, hd, heq⟩ := Option.map_eq_some_iff.mp hchannel
  exact ⟨d, hd, (congrArg Prod.snd heq).trans hup⟩

theorem reads_takeAll (s : Sink) : s.Reads s.takeAll := by
  refine ⟨rfl, rfl, ?_⟩
  cases hchannel : s.channel <;> simp [takeAll, hchannel]

theorem reads_take (s : Sink) : s.Reads s.take := by
  refine ⟨rfl, rfl, ?_⟩
  cases hchannel : s.channel <;> simp [take, hchannel, Channel.take]

/-- All chunks were sent. -/
def IsWhole (s : Sink) : Prop := s.lines = s.chunks.map Chunk.line

theorem Reads.isWhole (h : s.Reads s') (hs : s.IsWhole) : s'.IsWhole := by
  rw [IsWhole, h.lines, h.chunks, hs]

theorem Shows.isWhole (hs : s.Shows) (hopen : s.IsOpen) : s.IsWhole := by
  obtain ⟨shown, hidden, hchunks, hlines, hall⟩ := hs
  obtain rfl := hall hopen
  rw [IsWhole, hlines, hchunks, List.append_nil]

end Sink

/-- The event that an act is for the sink. -/
def Act.event? (now : Instant) : Act → Option Sink.Event
  | .emitStart agent step input => some (.emitAt now (.flowStart agent step input))
  | .emitFinish agent model step messages usage reason =>
    some (.emitAt now (.stepFinish agent model step messages usage reason))
  | .emitFinal flow result => some (.emitAt now (.finalResponse flow result))
  | .emitError message => some (.emit (.error message))
  | .close => some .close
  | _ => none

theorem Act.onSink_eq (now : Instant) (a : Act) (s : Sink) :
    a.onSink now s = s.after (a.event? now).toList := by
  cases a <;> rfl

/-- An act keeps a sink open, unless it closes it. -/
theorem Act.onSink_isOpen {a : Act} (ha : a ≠ .close) (now : Instant) {s : Sink}
    (hs : s.IsOpen) : (a.onSink now s).IsOpen := by
  cases a with
  | emitStart agent step input => exact hs.writeAt now _
  | emitFinish agent model step messages usage reason => exact hs.writeAt now _
  | emitFinal flow result => exact hs.writeAt now _
  | emitError message => exact hs.write _
  | close => exact absurd rfl ha
  | _ => exact hs

/-! ## Along a run -/

/-- A run that has sent all its chunks so far and goes on to send them, or
that has sent all of them and has just closed the stream. -/
structure Streamed {M : Type} (h : History Act Act.Reply) (w : World M) : Prop where
  shows : w.sink.Shows
  isOpen : Act.close ∉ History.acts h → w.sink.IsOpen
  ended : ∀ acts, History.acts h = acts ++ [.close] → Act.close ∉ acts →
    w.sink.writing = false ∧ w.sink.IsWhole

namespace World

variable {M : Type} {w w' : World M} {h : History Act Act.Reply}

theorem streamed_drift (hs : Streamed h w) (hreads : w.sink.Reads w'.sink) : Streamed h w' := by
  refine ⟨?_, fun hnone => hreads.isOpen (hs.isOpen hnone), fun acts hacts hnone => ?_⟩
  · obtain ⟨shown, hidden, hchunks, hlines, hall⟩ := hs.shows
    exact ⟨shown, hidden, hreads.chunks.trans hchunks, hreads.lines.trans hlines,
      fun hopen => hall (hreads.symm.isOpen hopen)⟩
  · obtain ⟨hwriting, hwhole⟩ := hs.ended acts hacts hnone
    exact ⟨hreads.writing.trans hwriting, hreads.isWhole hwhole⟩

variable [LanguageModel M]

theorem streamed_act (hs : Streamed h w) (task : List Nat) (a : Act) :
    Streamed (h ++ [(task, ⟨a, (perform a w).1⟩)]) (perform a w).2 := by
  have hacts : History.acts (h ++ [(task, ⟨a, (perform a w).1⟩)]) = History.acts h ++ [a] :=
    History.acts_append ..
  refine ⟨?_, fun hnone => ?_, fun acts hsplit hnone => ?_⟩
  · rw [perform_sink, Act.onSink_eq]
    exact hs.shows.after _
  · rw [hacts] at hnone
    rw [perform_sink]
    refine Act.onSink_isOpen ?_ _ (hs.isOpen fun hmem => hnone (List.mem_append_left _ hmem))
    rintro rfl
    exact hnone (List.mem_append_right _ (List.mem_singleton_self _))
  · -- what was sent before the stream is closed is the whole trace
    rw [hacts] at hsplit
    obtain ⟨rfl, heq⟩ := List.append_inj' hsplit rfl
    obtain rfl := List.singleton_inj.mp heq
    exact ⟨rfl, hs.shows.isWhole (hs.isOpen hnone)⟩

theorem streamed_of_run {β : Type} {config : FanoutConfig} {drift : World M → World M → Prop}
    {p₀ p : Process Act Act.Reply β} {environment : Environment M} {capacity : Nat} {log : RunLog}
    (hdrift : ∀ w w', drift w w' → w.sink.Reads w'.sink)
    (hrun : Process.Run config perform drift p₀ (start environment (.streaming capacity) log) h p
      w) : Streamed h w := by
  refine hrun.along Streamed ⟨Sink.shows_streaming capacity, fun _ => ⟨rfl, _, rfl, rfl⟩, ?_⟩ ?_ ?_
  · intro acts hacts
    cases acts <;> cases hacts
  · exact fun h w w' hs hd => streamed_drift hs (hdrift w w' hd)
  · exact fun h w task a hs => streamed_act hs task a

end World

namespace Execution

/-- No call ends a run. -/
theorem call_inner (r : Registry) (c : Call) (scope : Bindings) :
    (call r c scope).All Act.IsInner :=
  call_all r c scope trivial (fun _ => trivial) fun _ _ ha => ha.isInner

end Execution

namespace Engine

variable {p : Prepared} {result : Except FlowError StepOutcome}

/-- No step ends a run. -/
theorem Concluded.inner {policy : FailurePolicy} {before h : History Act Act.Reply}
    {trace : List Chunk} (hc : Concluded p policy result before h trace) :
    ∀ a ∈ History.acts before, a.IsInner := by
  intro a ha
  obtain ⟨x, hx, rfl⟩ := List.mem_map.mp ha
  exact (Execution.step_all (fun _ => trivial) _ (fun c _ => Execution.call_inner _ c) _).of_reaches
    (Script.ends_ofResult.mp hc.root) x hx

/-- The stream is closed once, at the end. -/
theorem closes_last (p : Prepared) (result : Except FlowError StepOutcome) {acts : List Act}
    (hinner : ∀ a ∈ acts, a.IsInner) :
    ∃ front, acts ++ closing p result = front ++ [.close] ∧ Act.close ∉ front := by
  have hnone : Act.close ∉ acts := fun hmem => hinner _ hmem
  cases result with
  | ok out =>
      refine ⟨acts ++ [.emitFinal p.plan.name out.value, .finalize p.request.session], ?_, ?_⟩
      · simp [closing, verdictAct]
      · simpa using hnone
  | error e =>
      refine ⟨acts ++ [.emitError e.message, .logError e.message, .finalize p.request.session],
        ?_, ?_⟩
      · simp [closing, verdictAct]
      · simpa using hnone

/-- A run that has ended, and whose reader was there, has sent its trace and closed its stream. -/
theorem closed_of_run {M : Type} [LanguageModel M] {config : FanoutConfig} {capacity : Nat}
    {drift : World M → World M → Prop} {environment : Environment M} {h : History Act Act.Reply}
    {w : World M}
    (hdrift : ∀ w w', drift w w' → w.sink.Reads w'.sink)
    (hrun : Process.Run config World.perform drift (.line (script p))
      (World.start environment (.streaming capacity) p.log) h (.line (.ret result)) w) :
    w.sink.writing = false ∧ w.sink.IsWhole := by
  obtain ⟨before, hc⟩ := concluded_of_run rfl (fun w w' hd => (hdrift w w' hd).chunks) hrun
  obtain ⟨acts, hacts, hnone⟩ := closes_last p result hc.inner
  exact (World.streamed_of_run hdrift hrun).ended acts (hc.acts.trans hacts) hnone

/-- **Streams show traces.** Whatever happens to a streaming sink, of whatever
capacity and in whichever order: its stream shows the lines of the first
chunks of the trace, in order; all that is emitted is recorded, in order;
and once the sink was closed, or its reader has gone, nothing is sent any
more. A line has one line end, the last of its bytes, so the bytes that were
sent can be taken apart at line ends.

A run that has ended, and whose reader has read lines but has not gone, has
sent its whole trace, of which the last chunk and no other is one that ends
traces, and has closed the stream. -/
theorem stream_shows_trace {M : Type} [LanguageModel M] (config : FanoutConfig) (p : Prepared)
    (capacity : Nat) :
    (∀ events, (Sink.streaming capacity).Faithful events) ∧
      ∀ (drift : World M → World M → Prop) (environment : Environment M)
        (h : History Act Act.Reply) (result : Except FlowError StepOutcome) (w : World M),
        (∀ w w', drift w w' → w.sink.Reads w'.sink) →
        Process.Run config World.perform drift (.line (script p))
          (World.start environment (.streaming capacity) p.log) h (.line (.ret result)) w →
        w.sink.lines = w.sink.chunks.map Chunk.line ∧ w.sink.writing = false ∧
          ∃ shown last, w.sink.chunks = shown ++ [last] ∧ last.isTerminal = true ∧
            ∀ c ∈ shown, c.isTerminal = false := by
  refine ⟨Sink.streaming_faithful capacity, fun drift environment h result w hdrift hrun => ?_⟩
  obtain ⟨before, hc⟩ := concluded_of_run rfl (fun w w' hd => (hdrift w w' hd).chunks) hrun
  obtain ⟨hclosed, hwhole⟩ := closed_of_run hdrift hrun
  obtain ⟨shown, last, hsplit, hlast, hshown⟩ := hc.shape
  refine ⟨hwhole, hclosed, shown, last, hsplit, Concluded.isTerminal_of_verdict hlast, ?_⟩
  intro c hmem
  have hin := hc.inner _ (act_mem_of_trace hshown hmem)
  cases c with
  | flowStart name step input time => rfl
  | stepFinish name model step messages usage reason time => rfl
  | finalResponse name value time => exact hin.elim
  | error message => exact hin.elim

/-- The seven chunks of a run are sent over a channel with room for them. -/
theorem stream_shows_trace_echoed :
    ∃ (p : Prepared) (w : World Rehearsal.ScriptedModel) (h : History Act Act.Reply)
      (out : StepOutcome),
      Process.Run echoing.config.fanout World.perform Eq (.line (script p))
          (World.start silentEnvironment (.streaming 16) p.log) h (.line (.ret (.ok out))) w ∧
        w.sink.lines.length = 7 ∧ w.sink.lines = w.sink.chunks.map Chunk.line ∧
        w.sink.writing = false := by
  have hsucceeds : succeedsOn (.streaming 16) = true := by decide +kernel
  obtain ⟨p, w, h, out, -, hrun, hlength⟩ := run_of_succeedsOn hsucceeds
  obtain ⟨hlines, hclosed, -⟩ := (stream_shows_trace echoing.config.fanout p 16).2 Eq
    silentEnvironment h _ w (fun w _ hw => hw ▸ ⟨rfl, rfl, rfl⟩) hrun
  exact ⟨p, w, h, out, hrun, by rw [hlines, List.length_map, hlength], hlines, hclosed⟩

end Engine

end Ensemble
