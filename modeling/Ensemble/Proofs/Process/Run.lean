import Ensemble.Proofs.Process.History

/-!
# Runs of a process

A run is any sequence of moves that a process can make, in a world that
may also change by itself between two moves. Nothing is said about who
picks the moves: what holds of every `Process.Run` holds of every schedule,
whose moves are some of them (`Schedule.run?_runs`).

`Process.Moves` says what a move can do to a process when nothing is
known of the world; `Process.Run.along` is the induction over what a run
does to the world.
-/

namespace Ensemble

/-! ## Runs -/

namespace Process

variable {A : Type} {R : A → Type} {β W : Type}

/-- What a move of the process at a path performs. -/
def exchanges (perform : (a : A) → W → R a × W) (path : List Nat) (m : Move)
    (p : Process A R β) (w : W) : History A R :=
  match m, p.at? path with
  | .act, some (.line (.act a _)) => [(path, ⟨a, (perform a w).1⟩)]
  | _, _ => []

/-- From `p₀` and `w₀` the moves with the history `h` can lead to `p` and
`w`. Between two moves the world may drift. -/
inductive Run (config : FanoutConfig) (perform : (a : A) → W → R a × W) (drift : W → W → Prop)
    (p₀ : Process A R β) (w₀ : W) : History A R → Process A R β → W → Prop
  | start : Run config perform drift p₀ w₀ [] p₀ w₀
  | drift {h : History A R} {p : Process A R β} {w w' : W} :
      Run config perform drift p₀ w₀ h p w → drift w w' →
      Run config perform drift p₀ w₀ h p w'
  | move {h : History A R} {p p' : Process A R β} {w w' : W} (path : List Nat) (m : Move) :
      Run config perform drift p₀ w₀ h p w → p.move? config perform path m w = some (p', w') →
      Run config perform drift p₀ w₀ (h ++ p.exchanges perform path m w) p' w'

/-- Makes the given moves one after the other. -/
def play? (config : FanoutConfig) (perform : (a : A) → W → R a × W) :
    List (List Nat × Move) → Process A R β → W → Option (History A R × Process A R β × W)
  | [], p, w => some ([], p, w)
  | (path, m) :: rest, p, w => do
    let (p', w') ← p.move? config perform path m w
    let (h, last) ← play? config perform rest p' w'
    return (p.exchanges perform path m w ++ h, last)

/-! ## What a move can do -/

/-- The moves of a process in any world, with what they perform. -/
inductive Moves (config : FanoutConfig) :
    Process A R β → History A R → Process A R β → Prop
  | act (a : A) (next : R a → Script A R β) (reply : R a) :
      Moves config (.line (.act a next)) [([], ⟨a, reply⟩)] (.line (next reply))
  | pause (ms : Nat) (next : Script A R β) : Moves config (.line (.pause ms next)) [] (.line next)
  | fork (branches : List (Script A R β)) (next : List (BranchOutcome β) → Script A R β) :
      Moves config (.line (.fork branches next)) [] (.fan (.start branches) next)
  | dispatch {f f' : Fan (Process A R β) (Script A R β) β}
      {next : List (BranchOutcome β) → Script A R β} {i : Nat}
      (hf : f.dispatch? config.maxConcurrency .line i = some f') :
      Moves config (.fan f next) [] (.fan f' next)
  | finish {f f' : Fan (Process A R β) (Script A R β) β}
      {next : List (BranchOutcome β) → Script A R β} {i : Nat}
      (hf : f.finish? ending? i = some f') : Moves config (.fan f next) [] (.fan f' next)
  | join {f f' : Fan (Process A R β) (Script A R β) β}
      {next : List (BranchOutcome β) → Script A R β} {i : Nat}
      (hf : f.join? config.failure i = some f') : Moves config (.fan f next) [] (.fan f' next)
  | collect {f : Fan (Process A R β) (Script A R β) β}
      {next : List (BranchOutcome β) → Script A R β} {outcomes : List (BranchOutcome β)}
      (hf : f.outcomes? = some outcomes) : Moves config (.fan f next) [] (.line (next outcomes))
  | branch {f : Fan (Process A R β) (Script A R β) β}
      {next : List (BranchOutcome β) → Script A R β} {i : Nat} {p p' : Process A R β}
      {h : History A R} (hi : f.branches[i]? = some (.active p)) (hp : Moves config p h p') :
      Moves config (.fan f next) (h.under i)
        (.fan { f with branches := f.branches.set i (.active p') } next)

variable {config : FanoutConfig} {perform : (a : A) → W → R a × W}

theorem moves_of_step? {m : Move} {p p' : Process A R β} {w w' : W}
    (h : step? config perform m p w = some (p', w')) :
    Moves config p (p.exchanges perform [] m w) p' := by
  cases p with
  | line s =>
      cases s with
      | ret r => cases m <;> simp [step?] at h
      | crash => cases m <;> simp [step?] at h
      | act a next =>
          cases m <;> simp only [step?, reduceCtorEq, Option.some.injEq, Prod.mk.injEq] at h
          obtain ⟨rfl, rfl⟩ := h
          exact .act a next _
      | pause ms next =>
          cases m <;> simp only [step?, reduceCtorEq, Option.some.injEq, Prod.mk.injEq] at h
          obtain ⟨rfl, rfl⟩ := h
          exact .pause ms next
      | fork branches next =>
          cases m <;> simp only [step?, reduceCtorEq, Option.some.injEq, Prod.mk.injEq] at h
          obtain ⟨rfl, rfl⟩ := h
          exact .fork branches next
  | fan f next =>
      cases m <;> simp only [step?, reduceCtorEq, Option.map_eq_some_iff, Prod.mk.injEq] at h
      all_goals obtain ⟨x, hf, rfl, rfl⟩ := h
      · exact .dispatch hf
      · exact .finish hf
      · exact .join hf
      · exact .collect hf

theorem exchanges_fan {f : Fan (Process A R β) (Script A R β) β}
    {next : List (BranchOutcome β) → Script A R β} {i : Nat} {p : Process A R β}
    (hi : f.branches[i]? = some (.active p)) (path : List Nat) (m : Move) (w : W) :
    (fan f next).exchanges perform (i :: path) m w = (p.exchanges perform path m w).under i := by
  have hat : (fan f next).at? (i :: path) = p.at? path := by simp [at?, hi]
  unfold exchanges
  rw [hat]
  split <;> rfl

theorem move?_fan {f : Fan (Process A R β) (Script A R β) β}
    {next : List (BranchOutcome β) → Script A R β} {i : Nat} {path : List Nat} {m : Move}
    {w w' : W} {q : Process A R β}
    (h : (fan f next).move? config perform (i :: path) m w = some (q, w')) :
    ∃ p p', f.branches[i]? = some (.active p) ∧ p.move? config perform path m w = some (p', w')
      ∧ q = .fan { f with branches := f.branches.set i (.active p') } next := by
  rw [move?, changeAt?] at h
  split at h
  · rename_i p hi
    obtain ⟨⟨p', w''⟩, hp, heq⟩ := Option.map_eq_some_iff.mp h
    obtain ⟨rfl, rfl⟩ := Prod.mk.inj heq
    exact ⟨p, p', hi, hp, rfl⟩
  · cases h

/-- Every move of the model is one of `Moves`. -/
theorem moves_of_move? {path : List Nat} {m : Move} {p p' : Process A R β} {w w' : W}
    (h : p.move? config perform path m w = some (p', w')) :
    Moves config p (p.exchanges perform path m w) p' := by
  induction path generalizing p p' with
  | nil => exact moves_of_step? h
  | cons i path ih =>
      cases p with
      | line s => cases h
      | fan f next =>
          obtain ⟨p, p', hi, hp, rfl⟩ := move?_fan h
          rw [exchanges_fan hi]
          exact .branch hi (ih hp)

/-! ## What a run does to the world -/

/-- A move performs nothing, or one act in the world that it finds. -/
theorem world_of_move? {path : List Nat} {m : Move} {p p' : Process A R β} {w w' : W}
    (h : p.move? config perform path m w = some (p', w')) :
    (p.exchanges perform path m w = [] ∧ w' = w) ∨
      ∃ task a, p.exchanges perform path m w = [(task, ⟨a, (perform a w).1⟩)]
        ∧ w' = (perform a w).2 := by
  induction path generalizing p p' with
  | nil =>
      cases p with
      | line s =>
          cases s <;> cases m <;>
            simp only [move?, changeAt?, step?, reduceCtorEq, Option.some.injEq,
              Prod.mk.injEq] at h
          · exact Or.inr ⟨[], _, rfl, h.2.symm⟩
          · exact Or.inl ⟨rfl, h.2.symm⟩
          · exact Or.inl ⟨rfl, h.2.symm⟩
      | fan f next =>
          cases m <;> simp only [move?, changeAt?, step?, reduceCtorEq, Option.map_eq_some_iff,
            Prod.mk.injEq] at h
          all_goals
            obtain ⟨x, -, -, hw⟩ := h
            exact Or.inl ⟨rfl, hw.symm⟩
  | cons i path ih =>
      cases p with
      | line s => cases h
      | fan f next =>
          obtain ⟨p, p', hi, hp, rfl⟩ := move?_fan h
          rw [exchanges_fan hi]
          rcases ih hp with ⟨hnil, hw⟩ | ⟨task, a, hone, hw⟩
          · exact Or.inl ⟨by rw [hnil]; rfl, hw⟩
          · exact Or.inr ⟨i :: task, a, by rw [hone]; rfl, hw⟩

variable {drift : W → W → Prop} {p₀ p : Process A R β} {w₀ w : W} {h : History A R}

/-- What holds at the start of a run and is kept by drifting and by every
act holds at its end. -/
theorem Run.along (Inv : History A R → W → Prop) (hrun : Run config perform drift p₀ w₀ h p w)
    (hstart : Inv [] w₀) (hdrift : ∀ h w w', Inv h w → drift w w' → Inv h w')
    (hact : ∀ h w task a, Inv h w →
      Inv (h ++ [(task, ⟨a, (perform a w).1⟩)]) (perform a w).2) : Inv h w := by
  induction hrun with
  | start => exact hstart
  | drift _ hd ih => exact hdrift _ _ _ ih hd
  | move path m _ hm ih =>
      rcases world_of_move? hm with ⟨hnil, rfl⟩ | ⟨task, a, hone, rfl⟩
      · rwa [hnil, List.append_nil]
      · rw [hone]
        exact hact _ _ _ _ ih

/-- A run in a world that drifts less is one in a world that drifts more. -/
theorem Run.mono {drift' : W → W → Prop} (hdrift : ∀ w w', drift w w' → drift' w w')
    (hrun : Run config perform drift p₀ w₀ h p w) : Run config perform drift' p₀ w₀ h p w := by
  induction hrun with
  | start => exact .start
  | drift _ hd ih => exact ih.drift (hdrift _ _ hd)
  | move path m _ hm ih => exact ih.move path m hm

/-- Played moves continue a run. -/
theorem Run.play {moves : List (List Nat × Move)} {p' : Process A R β} {w' : W}
    {later : History A R} (hrun : Run config perform drift p₀ w₀ h p w)
    (hplay : play? config perform moves p w = some (later, p', w')) :
    Run config perform drift p₀ w₀ (h ++ later) p' w' := by
  induction moves generalizing h p w later with
  | nil =>
      obtain ⟨rfl, rfl, rfl⟩ : [] = later ∧ p = p' ∧ w = w' := by simpa [play?] using hplay
      rwa [List.append_nil]
  | cons pm rest ih =>
      obtain ⟨path, m⟩ := pm
      simp only [play?, Option.pure_def, Option.bind_eq_bind, Option.bind_eq_some_iff,
        Option.some.injEq] at hplay
      obtain ⟨⟨p₁, w₁⟩, hm, ⟨h₁, last⟩, hrest, heq⟩ := hplay
      obtain ⟨rfl, rfl⟩ := Prod.mk.inj heq
      rw [← List.append_assoc]
      exact ih (.move path m hrun hm) hrest

end Process

end Ensemble
