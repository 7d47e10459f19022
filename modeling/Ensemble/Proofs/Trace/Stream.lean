import Ensemble.Proofs.Json.Printing
import Ensemble.Proofs.Text.Utf8
import Ensemble.Proofs.Trace.Sink

/-!
# Streams and their traces

Whatever happens to a sink, and in whichever order, its stream shows the
beginning of its trace (`Shows.after`): lines are sent for all chunks up to
some point, in order, and for none behind it. All that is emitted is
recorded (`after_chunks`), but nothing is sent any more once the stream was
closed or its reader is gone (`after_of_not_open`).

An event is what has happened in the end. An emission that has to wait for
room is the event of a later time, or that of giving up; so room plays no
part here, and which of the events are possible at which time is left open.
-/

namespace Ensemble

open Text

/-- The line of a chunk ends where its only line end is, whatever it says. -/
theorem Chunk.encode_line (c : Chunk) :
    ∃ body, encode c.line = body ++ [newline] ∧ newline ∉ body :=
  Text.encode_line c.toJson.compact_visible.newline_not_mem

/-- The lines of chunks that were put together are told apart by line ends. -/
theorem Chunk.splitOn_lines (chunks : List Chunk) :
    (chunks.flatMap fun c => encode c.line).splitOn newline
      = (chunks.map fun c => (encode c.line).dropLast) ++ [[]] := by
  have hbody : ∀ c : Chunk, encode c.line = (encode c.line).dropLast ++ [newline] ∧
      newline ∉ (encode c.line).dropLast := by
    intro c
    obtain ⟨body, hline, hbody⟩ := c.encode_line
    rw [hline, List.dropLast_concat]
    exact ⟨rfl, hbody⟩
  have hsplit : ((chunks.map fun c => (encode c.line).dropLast).flatMap
      fun body => body ++ [newline]).splitOn newline
        = (chunks.map fun c => (encode c.line).dropLast) ++ [[]] := by
    refine Text.splitOn_lines fun body hmem => ?_
    obtain ⟨c, -, rfl⟩ := List.mem_map.mp hmem
    exact (hbody c).2
  rw [List.flatMap_map] at hsplit
  rw [← hsplit]
  exact congrArg (List.splitOn newline) (List.flatMap_congr fun c _ => (hbody c).1)

namespace Sink

/-! ## Events -/

/-- What can happen to a sink. A chunk that waits for room may be given up,
but a time has been given out for it. -/
inductive Event
  | emit (c : Chunk)
  | emitAt (now : Instant) (build : Instant → Chunk)
  | giveUp (now : Instant)
  | close
  | take
  | takeAll
  | hangUp

def on (s : Sink) : Event → Sink
  | .emit c => s.write c
  | .emitAt now build => s.writeAt now build
  | .giveUp now => { s with lastAt := some (s.stamp now) }
  | .close => s.close
  | .take => s.take
  | .takeAll => s.takeAll
  | .hangUp => s.hangUp

/-- The sink after some events. -/
def after (s : Sink) (events : List Event) : Sink := events.foldl on s

/-- The chunk that an event emits. -/
def emitted? (s : Sink) : Event → Option Chunk
  | .emit c => some c
  | .emitAt now build => some (build (s.stamp now))
  | _ => none

/-- All chunks that events emit, in order. -/
def emissions (s : Sink) : List Event → List Chunk
  | [] => []
  | e :: rest => (s.emitted? e).toList ++ (s.on e).emissions rest

/-- The lines that were handed to the channel. -/
def lines (s : Sink) : List String := (s.channel.map Channel.sent).getD []

variable {s : Sink}

/-! ## What is recorded -/

theorem on_chunks (s : Sink) (e : Event) :
    (s.on e).chunks = s.chunks ++ (s.emitted? e).toList := by
  cases e <;> simp [on, emitted?, close, take, takeAll, hangUp]

/-- All that is emitted is recorded, whether or not it is sent. -/
theorem after_chunks (s : Sink) (events : List Event) :
    (s.after events).chunks = s.chunks ++ s.emissions events := by
  induction events generalizing s with
  | nil => exact (List.append_nil _).symm
  | cons e rest ih =>
      rw [emissions, ← List.append_assoc, ← on_chunks]
      exact ih (s.on e)

/-! ## What is sent -/

/-- A sink that sends lines to a reader. -/
def IsOpen (s : Sink) : Prop := s.writing = true ∧ ∃ c, s.channel = some c ∧ c.hungUp = false

/-- A chunk is sent if the sink is open. -/
theorem write_sends (s : Sink) (c : Chunk) :
    (s.IsOpen ∧ (s.write c).lines = s.lines ++ [c.line]) ∨
      (¬s.IsOpen ∧ ¬(s.write c).IsOpen ∧ (s.write c).lines = s.lines) := by
  unfold IsOpen write
  cases hchannel : s.channel with
  | none => simp [lines, hchannel]
  | some channel =>
      cases hwriting : s.writing <;> cases hup : channel.hungUp <;>
        simp [lines, hchannel, hup]

/-- What a reader does leaves the lines that were sent alone. -/
theorem lines_of_map {f : Channel → Channel} (hf : ∀ c, (f c).sent = c.sent) :
    ({ s with channel := s.channel.map f } : Sink).lines = s.lines := by
  rw [lines, lines, Option.map_map]
  exact congrArg (fun g => (s.channel.map g).getD []) (funext hf)

/-- What a reader does opens no sink. -/
theorem isOpen_of_map {f : Channel → Channel} (hf : ∀ c, (f c).hungUp = false → c.hungUp = false)
    (hopen : ({ s with channel := s.channel.map f } : Sink).IsOpen) : s.IsOpen := by
  obtain ⟨hwriting, _, hchannel, hup⟩ := hopen
  obtain ⟨c, hc, rfl⟩ := Option.map_eq_some_iff.mp hchannel
  exact ⟨hwriting, c, hc, hf c hup⟩

/-- Lines are sent for chunks that are emitted while the sink is open; and a
sink that is not open does not open again. -/
theorem on_sends (s : Sink) (e : Event) :
    (s.IsOpen ∧ (s.on e).lines = s.lines ++ (s.emitted? e).toList.map Chunk.line) ∨
      (¬s.IsOpen ∧ ¬(s.on e).IsOpen ∧ (s.on e).lines = s.lines) := by
  have hquiet : ∀ s' : Sink, (s'.IsOpen → s.IsOpen) → s'.lines = s.lines →
      (s.IsOpen ∧ s'.lines = s.lines ++ []) ∨ (¬s.IsOpen ∧ ¬s'.IsOpen ∧ s'.lines = s.lines) := by
    intro s' hopen hlines
    by_cases hs : s.IsOpen
    · exact Or.inl ⟨hs, by rw [hlines, List.append_nil]⟩
    · exact Or.inr ⟨hs, fun h => hs (hopen h), hlines⟩
  cases e with
  | emit c => exact s.write_sends c
  | emitAt now build => exact Sink.write_sends { s with lastAt := some (s.stamp now) } _
  | giveUp now => exact hquiet _ id rfl
  | close => exact hquiet _ (fun h => nomatch h.1) rfl
  | take => exact hquiet _ (isOpen_of_map fun _ hup => hup) (lines_of_map fun _ => rfl)
  | takeAll => exact hquiet _ (isOpen_of_map fun _ hup => hup) (lines_of_map fun _ => rfl)
  | hangUp => exact hquiet _ (isOpen_of_map fun _ hup => nomatch hup) (lines_of_map fun _ => rfl)

theorem IsOpen.write (h : s.IsOpen) (c : Chunk) : (s.write c).IsOpen := by
  obtain ⟨hwriting, channel, hchannel, hup⟩ := h
  simp [IsOpen, Sink.write, hwriting, hchannel, hup]

theorem IsOpen.writeAt (h : s.IsOpen) (now : Instant) (build : Instant → Chunk) :
    (s.writeAt now build).IsOpen := IsOpen.write (s := { s with lastAt := some (s.stamp now) }) h _

/-- Nothing is sent any more once a sink is not open. -/
theorem after_of_not_open (h : ¬s.IsOpen) (events : List Event) :
    (s.after events).lines = s.lines ∧ ¬(s.after events).IsOpen := by
  induction events generalizing s with
  | nil => exact ⟨rfl, h⟩
  | cons e rest ih =>
      obtain ⟨hopen, -⟩ | ⟨-, hclosed, hlines⟩ := s.on_sends e
      · exact absurd hopen h
      · exact ⟨(ih hclosed).1.trans hlines, (ih hclosed).2⟩

theorem after_append (s : Sink) (before later : List Event) :
    s.after (before ++ later) = (s.after before).after later := List.foldl_append

/-- A sink that was closed, or whose reader has gone, is not open. -/
theorem not_open_of_mem {events : List Event}
    (h : .close ∈ events ∨ .hangUp ∈ events) : ¬(s.after events).IsOpen := by
  have hclosing : ∀ e ∈ events, e = .close ∨ e = .hangUp → ¬(s.after events).IsOpen := by
    intro e he hkind
    obtain ⟨before, later, rfl⟩ := List.append_of_mem he
    have hclosed : ¬((s.after before).on e).IsOpen := by
      rcases hkind with rfl | rfl
      · exact fun hopen => nomatch hopen.1
      · rintro ⟨-, c, hchannel, hup⟩
        obtain ⟨d, -, rfl⟩ := Option.map_eq_some_iff.mp hchannel
        cases hup
    rw [after_append]
    exact (after_of_not_open hclosed later).2
  exact h.elim (fun he => hclosing _ he (Or.inl rfl)) fun he => hclosing _ he (Or.inr rfl)

/-- The stream shows the first chunks of the trace, and all of them as long as
the sink is open. -/
def Shows (s : Sink) : Prop :=
  ∃ shown hidden, s.chunks = shown ++ hidden ∧ s.lines = shown.map Chunk.line ∧
    (s.IsOpen → hidden = [])

theorem Shows.on (hs : s.Shows) (e : Event) : (s.on e).Shows := by
  obtain ⟨shown, hidden, hchunks, hlines, hall⟩ := hs
  obtain ⟨hopen, hsent⟩ | ⟨-, hclosed, hsent⟩ := s.on_sends e
  · obtain rfl := hall hopen
    refine ⟨shown ++ (s.emitted? e).toList, [], ?_, ?_, fun _ => rfl⟩
    · rw [on_chunks, hchunks, List.append_nil, List.append_nil]
    · rw [hsent, hlines, List.map_append]
  · refine ⟨shown, hidden ++ (s.emitted? e).toList, ?_, hsent.trans hlines,
      fun hopen => absurd hopen hclosed⟩
    rw [on_chunks, hchunks, List.append_assoc]

theorem Shows.after (hs : s.Shows) (events : List Event) : (s.after events).Shows := by
  induction events generalizing s with
  | nil => exact hs
  | cons e rest ih => exact ih (hs.on e)

theorem shows_streaming (capacity : Nat) : (streaming capacity).Shows :=
  ⟨[], [], rfl, rfl, fun _ => rfl⟩

/-! ## Streams as they are read -/

/-- What the stream of a sink is to its trace after some events. -/
structure Faithful (s : Sink) (events : List Event) : Prop where
  /-- The lines are those of the first chunks, without a gap. -/
  sent : ∃ shown hidden, (s.after events).chunks = shown ++ hidden ∧
    (s.after events).lines = shown.map Chunk.line
  recorded : (s.after events).chunks = s.emissions events
  /-- Sending only fails when the reader has gone. -/
  silent : ∀ before later, events = before ++ later → .close ∈ before ∨ .hangUp ∈ before →
    (s.after events).lines = (s.after before).lines
  framed : ∀ line ∈ (s.after events).lines, ∃ body,
    encode line = body ++ [newline] ∧ newline ∉ body
  split : ((s.after events).lines.flatMap encode).splitOn newline
    = (s.after events).lines.map (fun line => (encode line).dropLast) ++ [[]]

theorem streaming_faithful (capacity : Nat) (events : List Event) :
    (streaming capacity).Faithful events := by
  obtain ⟨shown, hidden, hchunks, hlines, -⟩ := (shows_streaming capacity).after events
  refine ⟨⟨shown, hidden, hchunks, hlines⟩, after_chunks .., ?_, ?_, ?_⟩
  · rintro before later rfl hclosed
    rw [after_append]
    exact (after_of_not_open (not_open_of_mem hclosed) later).1
  · intro line hmem
    rw [hlines] at hmem
    obtain ⟨c, -, rfl⟩ := List.mem_map.mp hmem
    exact c.encode_line
  · rw [hlines, List.flatMap_map, List.map_map]
    exact Chunk.splitOn_lines shown

end Sink

end Ensemble
