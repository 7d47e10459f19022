import Ensemble.Proofs.Process.Run
import Ensemble.Proofs.Run.Trace

/-!
# The same schedule on two sinks

A schedule, as far as a run can tell, is a list of ticks: a move of the
process, a change of the surroundings, or a reader that takes lines.
`World.follow?` follows such a list. Whether a sink also streams makes no
difference to it: on two worlds that differ in their channels only, a list
of ticks leads to the same history, the same process and the same trace
(`follow?_alike`), since no reply depends on the channel.
-/

namespace Ensemble

/-! ## Processes in two worlds -/

namespace Process

variable {A : Type} {R : A → Type} {β W : Type} {config : FanoutConfig}
  {perform : (a : A) → W → R a × W} {S : W → W → Prop} {p p' : Process A R β} {w w' w₁ : W}
  {m : Move}

/-- Worlds that are related give the same replies, and stay related. -/
def Mirrors (perform : (a : A) → W → R a × W) (S : W → W → Prop) : Prop :=
  ∀ a w w', S w w' → (perform a w).1 = (perform a w').1 ∧ S (perform a w).2 (perform a w').2

theorem step?_mirrors (hS : Mirrors perform S) (hw : S w w')
    (h : step? config perform m p w = some (p', w₁)) :
    ∃ w₂, step? config perform m p w' = some (p', w₂) ∧ S w₁ w₂ ∧
      p.exchanges perform [] m w' = p.exchanges perform [] m w := by
  cases p with
  | line s =>
      cases s with
      | act a next =>
          cases m <;> simp only [step?, reduceCtorEq, Option.some.injEq, Prod.mk.injEq] at h
          obtain ⟨rfl, rfl⟩ := h
          obtain ⟨hreply, hnext⟩ := hS a w w' hw
          exact ⟨_, by simp [step?, hreply], hnext, by simp [exchanges, at?, hreply]⟩
      | pause ms next =>
          cases m <;> simp only [step?, reduceCtorEq, Option.some.injEq, Prod.mk.injEq] at h
          obtain ⟨rfl, rfl⟩ := h
          exact ⟨w', rfl, hw, rfl⟩
      | fork branches next =>
          cases m <;> simp only [step?, reduceCtorEq, Option.some.injEq, Prod.mk.injEq] at h
          obtain ⟨rfl, rfl⟩ := h
          exact ⟨w', rfl, hw, rfl⟩
      | ret r => cases m <;> simp [step?] at h
      | crash => cases m <;> simp [step?] at h
  | fan f next =>
      cases m <;> simp only [step?, reduceCtorEq, Option.map_eq_some_iff, Prod.mk.injEq] at h
      all_goals
        obtain ⟨x, hx, rfl, rfl⟩ := h
        exact ⟨w', by simp [step?, hx], hw, rfl⟩

/-- A move that is possible in one world is possible in the other one. -/
theorem move?_mirrors (hS : Mirrors perform S) (hw : S w w') {path : List Nat}
    (h : p.move? config perform path m w = some (p', w₁)) :
    ∃ w₂, p.move? config perform path m w' = some (p', w₂) ∧ S w₁ w₂ ∧
      p.exchanges perform path m w' = p.exchanges perform path m w := by
  induction path generalizing p p' with
  | nil => exact step?_mirrors hS hw h
  | cons i path ih =>
      cases p with
      | line s => cases h
      | fan f next =>
          obtain ⟨q, q', hi, hq, rfl⟩ := move?_fan h
          obtain ⟨w₂, hmove, hnext, hsame⟩ := ih hq
          refine ⟨w₂, ?_, hnext, by rw [exchanges_fan hi, exchanges_fan hi, hsame]⟩
          rw [move?] at hmove
          simp [move?, changeAt?, hi, hmove]

end Process

/-! ## Worlds that differ in their channels -/

namespace Sink

/-- Two sinks with the same trace, of which each may stream or not. -/
structure Twin (s s' : Sink) : Prop where
  chunks : s'.chunks = s.chunks
  lastAt : s'.lastAt = s.lastAt

variable {s s' : Sink}

theorem Twin.symm (h : s.Twin s') : s'.Twin s := ⟨h.chunks.symm, h.lastAt.symm⟩

theorem Twin.write (h : s.Twin s') (c : Chunk) : (s.write c).Twin (s'.write c) :=
  ⟨by simp [h.chunks], by simp [h.lastAt]⟩

/-- The times of chunks do not depend on what is streamed. -/
theorem Twin.writeAt (h : s.Twin s') (now : Instant) (build : Instant → Chunk) :
    (s.writeAt now build).Twin (s'.writeAt now build) := by
  have hstamp : s'.stamp now = s.stamp now := by rw [stamp, stamp, h.lastAt]
  have htimed : Twin { s with lastAt := some (s.stamp now) }
      { s' with lastAt := some (s.stamp now) } := ⟨h.chunks, rfl⟩
  rw [Sink.writeAt, Sink.writeAt, hstamp]
  exact htimed.write _

theorem Twin.onSink (h : s.Twin s') (a : Act) (now : Instant) :
    (a.onSink now s).Twin (a.onSink now s') := by
  cases a with
  | emitStart agent step input => exact h.writeAt now _
  | emitFinish agent model step messages usage reason => exact h.writeAt now _
  | emitFinal flow result => exact h.writeAt now _
  | emitError message => exact h.write _
  | close => exact ⟨h.chunks, h.lastAt⟩
  | _ => exact h

end Sink

namespace World

variable {M : Type} {w w' : World M}

/-- Two worlds that are the same but for what their sinks stream. -/
structure Alike (w w' : World M) : Prop where
  rest : w' = { w with sink := w'.sink }
  sink : w.sink.Twin w'.sink

theorem Alike.symm (h : Alike w w') : Alike w' w :=
  ⟨by rw [h.rest], h.sink.symm⟩

theorem alike_start (environment : Environment M) (log : RunLog) (capacity : Nat) :
    Alike (start environment .buffered log) (start environment (.streaming capacity) log) :=
  ⟨rfl, rfl, rfl⟩

/-! The services and the models know nothing of the sink. -/

theorem serve_withSink {α : Type} (f : Services → α × Services) (w : World M) (s : Sink) :
    serve f { w with sink := s } = ((w.serve f).1, { (w.serve f).2 with sink := s }) := rfl

theorem invoke_withSink (tool : Tool) (args : Json) (context : ToolContext) (w : World M)
    (s : Sink) :
    invoke tool args context { w with sink := s }
      = ((w.invoke tool args context).1, { (w.invoke tool args context).2 with sink := s }) := by
  cases tool with
  | custom spec run => rfl
  | saveResults usual =>
      simp only [invoke]
      cases Tool.contentToSave args with
      | error e => rfl
      | ok content =>
          simp only [serve_withSink]
          generalize w.serve (Services.save _) = served
          obtain ⟨saved, w⟩ := served
          cases saved <;> rfl

variable [LanguageModel M]

/-- An act does the same in a world with another sink, but to that sink. -/
theorem perform_withSink (a : Act) (w : World M) (s : Sink) :
    perform a { w with sink := s } = ((perform a w).1,
      { (perform a w).2 with sink := a.onSink w.environment.now s }) := by
  cases a with
  | invoke tool args context => exact invoke_withSink tool args context w s
  | recordSession session agent delta =>
      simp only [perform, recordSession, serve_withSink]
      generalize w.serve (Services.recordSession _) = served
      obtain ⟨recorded, w⟩ := served
      cases recorded <;> rfl
  | finalize session =>
      simp only [perform, finalize, serve_withSink]
      generalize w.serve (Services.finalize _ _) = served
      obtain ⟨finalized, w⟩ := served
      cases finalized <;> rfl
  | _ => rfl

/-- No act can tell two worlds apart that differ in their channels only. -/
theorem alike_mirrors : Process.Mirrors perform (Alike : World M → World M → Prop) := by
  intro a w w' h
  have hother := perform_withSink a w w'.sink
  rw [← h.rest] at hother
  rw [hother]
  refine ⟨rfl, rfl, ?_⟩
  dsimp only
  rw [perform_sink]
  exact h.sink.onSink a _

/-! ## Ticks -/

end World

/-- What can happen to a world between two moves. -/
inductive Drift (M : Type)
  /-- The surroundings change: the clocks, the stores or the models. -/
  | elsewhere (change : Environment M → Environment M)
  /-- The reader of the stream takes the next line. -/
  | take
  /-- The reader of the stream takes all lines. -/
  | takeAll

/-- What can happen next to a run. -/
inductive Tick (M : Type)
  | move (path : List Nat) (m : Move)
  | drift (d : Drift M)

namespace World

variable {M : Type}

def drift : Drift M → World M → World M
  | .elsewhere change, w => { w with environment := change w.environment }
  | .take, w => { w with sink := w.sink.take }
  | .takeAll, w => { w with sink := w.sink.takeAll }

/-- The world has drifted. -/
def Drifts (w w' : World M) : Prop := ∃ d, w' = drift d w

theorem Alike.drift {w w' : World M} (hw : Alike w w') (d : Drift M) :
    Alike (drift d w) (drift d w') := by
  obtain ⟨hrest, hsink⟩ := hw
  cases d with
  | elsewhere change =>
      refine ⟨?_, hsink⟩
      rw [hrest]
      rfl
  | take =>
      refine ⟨?_, hsink.chunks, hsink.lastAt⟩
      rw [hrest]
      rfl
  | takeAll =>
      refine ⟨?_, hsink.chunks, hsink.lastAt⟩
      rw [hrest]
      rfl

variable [LanguageModel M] {β : Type}

/-- Follows a list of ticks: what was performed, the process and the world
after it, unless a move is not possible. -/
def follow? (config : FanoutConfig) :
    List (Tick M) → Process Act Act.Reply β → World M →
      Option (History Act Act.Reply × Process Act Act.Reply β × World M)
  | [], p, w => some ([], p, w)
  | .move path m :: rest, p, w => do
    let (p', w') ← p.move? config perform path m w
    let (h, last) ← follow? config rest p' w'
    return (p.exchanges perform path m w ++ h, last)
  | .drift d :: rest, p, w => follow? config rest p (drift d w)

variable {config : FanoutConfig} {ticks : List (Tick M)} {p₀ p p' q : Process Act Act.Reply β}
  {w₀ w w' w₁ : World M} {h h' : History Act Act.Reply}

theorem follow?_nil (hfollow : follow? config [] p w = some (h, q, w₁)) :
    h = [] ∧ q = p ∧ w₁ = w := by
  obtain ⟨rfl, rfl, rfl⟩ : [] = h ∧ p = q ∧ w = w₁ := by simpa [follow?] using hfollow
  exact ⟨rfl, rfl, rfl⟩

theorem follow?_move {path : List Nat} {m : Move}
    (hfollow : follow? config (.move path m :: ticks) p w = some (h, q, w₁)) :
    ∃ p' w' later, p.move? config perform path m w = some (p', w') ∧
      follow? config ticks p' w' = some (later, q, w₁) ∧
      h = p.exchanges perform path m w ++ later := by
  simp only [follow?, Option.pure_def, Option.bind_eq_bind, Option.bind_eq_some_iff,
    Option.some.injEq] at hfollow
  obtain ⟨⟨p', w'⟩, hmove, ⟨later, last⟩, hrest, heq⟩ := hfollow
  obtain ⟨rfl, rfl⟩ := Prod.mk.inj heq
  exact ⟨p', w', later, hmove, hrest, rfl⟩

/-- A list of ticks that can be followed in one world can be followed in a
world that differs in its channel, and to the same end. -/
theorem follow?_alike (hw : Alike w w') (hfollow : follow? config ticks p w = some (h, q, w₁)) :
    ∃ w₂, follow? config ticks p w' = some (h, q, w₂) ∧ Alike w₁ w₂ := by
  induction ticks generalizing p w w' h with
  | nil =>
      obtain ⟨rfl, rfl, rfl⟩ := follow?_nil hfollow
      exact ⟨w', rfl, hw⟩
  | cons tick rest ih =>
      cases tick with
      | move path m =>
          obtain ⟨p', w₃, later, hmove, hrest, rfl⟩ := follow?_move hfollow
          obtain ⟨w₄, hmove', hw', hsame⟩ := Process.move?_mirrors alike_mirrors hw hmove
          obtain ⟨w₂, hrest', hlast⟩ := ih hw' hrest
          exact ⟨w₂, by simp [follow?, hmove', hrest', hsame], hlast⟩
      | drift d => exact ih (hw.drift d) hfollow

/-! ## Ticks are runs -/

/-- What follows a list of ticks continues a run. -/
theorem run_of_follow? (hrun : Process.Run config perform Drifts p₀ w₀ h p w)
    (hfollow : follow? config ticks p w = some (h', q, w₁)) :
    Process.Run config perform Drifts p₀ w₀ (h ++ h') q w₁ := by
  induction ticks generalizing p w h h' with
  | nil =>
      obtain ⟨rfl, rfl, rfl⟩ := follow?_nil hfollow
      rwa [List.append_nil]
  | cons tick rest ih =>
      cases tick with
      | move path m =>
          obtain ⟨p', w₃, later, hmove, hrest, rfl⟩ := follow?_move hfollow
          rw [← List.append_assoc]
          exact ih (hrun.move path m hmove) hrest
      | drift d => exact ih (hrun.drift ⟨d, rfl⟩) hfollow

theorem follow?_append {ticks' : List (Tick M)}
    (hfollow : follow? config ticks p w = some (h, q, w₁))
    (hnext : follow? config ticks' q w₁ = some (h', p', w')) :
    follow? config (ticks ++ ticks') p w = some (h ++ h', p', w') := by
  induction ticks generalizing p w h with
  | nil =>
      obtain ⟨rfl, rfl, rfl⟩ := follow?_nil hfollow
      exact hnext
  | cons tick rest ih =>
      cases tick with
      | move path m =>
          obtain ⟨p₁, w₃, later, hmove, hrest, rfl⟩ := follow?_move hfollow
          simp [follow?, hmove, ih hrest]
      | drift d => exact ih hfollow

/-- Every run is that of a list of ticks. -/
theorem follow?_of_run (hrun : Process.Run config perform Drifts p₀ w₀ h p w) :
    ∃ ticks, follow? config ticks p₀ w₀ = some (h, p, w) := by
  induction hrun with
  | start => exact ⟨[], rfl⟩
  | @drift h _ _ _ _ hd ih =>
      obtain ⟨ticks, hticks⟩ := ih
      obtain ⟨d, rfl⟩ := hd
      refine ⟨ticks ++ [.drift d], ?_⟩
      rw [← List.append_nil h]
      exact follow?_append hticks rfl
  | move path m _ hm ih =>
      obtain ⟨ticks, hticks⟩ := ih
      exact ⟨ticks ++ [.move path m], follow?_append hticks (by simp [follow?, hm])⟩

/-- The turns of a schedule are ticks. -/
theorem drifts_of_machine (h : machine.Drifts w w') : Drifts w w' := by
  rcases h with rfl | ⟨time, rfl⟩
  · exact ⟨.takeAll, rfl⟩
  · exact ⟨.elsewhere fun e => { e with time }, rfl⟩

end World

end Ensemble
