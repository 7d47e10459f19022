import Ensemble.Proofs.Process.Run
import Mathlib.Logic.Function.Basic

/-!
# What a script can reach

`Script.Reaches s h p` says, by the structure of `s` alone, that a task
with the script `s` can have become `p` with the history `h`. At a fork
every branch has reached something of its own with its own part of the
history, and a `Fate` that the fan shows; the branches are independent
of each other but for two rules (`Fan.Stands`): a branch is left out or
dropped only if a sibling has failed or crashed, and dropped only if that
is the policy.

`Process.Run.reaches` is the bridge from runs. A property of every run
can then be proved by induction on the script instead of on the moves.
-/

namespace Ensemble

variable {A : Type} {R : A → Type} {β W : Type}

/-! ## Inversion of the moves of a fan -/

namespace Fan

variable {φ σ : Type} {f f' : Fan φ σ β} {i : Nat}

theorem dispatch?_eq_some {limit : Option Nat} {run : σ → φ}
    (h : f.dispatch? limit run i = some f') :
    ∃ script, f.branches[i]? = some (.waiting script) ∧ f' = { f with
      branches := f.branches.set i
        (if f.failed then .ended .skipped else .active (run script)) } := by
  unfold dispatch? at h
  split at h
  · rename_i script hi
    split at h
    · exact ⟨script, hi, (Option.some.inj h).symm⟩
    · cases h
  · cases h

theorem finish?_eq_some {ending? : φ → Option (Ending β)} (h : f.finish? ending? i = some f') :
    ∃ p e, f.branches[i]? = some (.active p) ∧ ending? p = some e ∧
      f' = { failed := f.failed || e.isFailed, branches := f.branches.set i (.ended e) } := by
  unfold finish? at h
  split at h
  · rename_i p hi
    obtain ⟨e, he, rfl⟩ := Option.map_eq_some_iff.mp h
    exact ⟨p, e, hi, he, rfl⟩
  · cases h

theorem join?_eq_some {policy : FailurePolicy} (h : f.join? policy i = some f') :
    ∃ e, f.branches[i]? = some (.ended e) ∧
      f' = { failed := f.failed || e.isCrashed
             branches := if e.isFailed && policy == .cancelSiblings
              then (f.branches.set i (.joined e.outcome)).map .cancel
              else f.branches.set i (.joined e.outcome) } := by
  unfold join? at h
  split at h
  · rename_i e hi
    exact ⟨e, hi, (Option.some.inj h).symm⟩
  · cases h

end Fan

/-! ## Fates of branches -/

/-- What has become of a branch: it waits, it runs, it has ended by itself,
it was dropped on its way, or it was left out. -/
inductive Fate (A : Type) (R : A → Type) (β : Type)
  | waiting
  | active (p : Process A R β)
  | ended (p : Process A R β)
  | dropped (p : Process A R β)
  | skipped

/-- A process that has ended by a failure or a crash. -/
def Process.Faulty (p : Process A R β) : Prop :=
  ∃ e, p.ending? = some e ∧ (e.isFailed = true ∨ e.isCrashed = true)

namespace Fate

/-- How far the branch has come, if it was ever dispatched or dropped. -/
def process? : Fate A R β → Option (Process A R β)
  | .active p | .ended p | .dropped p => some p
  | .waiting | .skipped => none

/-- What a fan shows of a branch with the given script. -/
def Shows (script : Script A R β) :
    Fate A R β → Branch (Process A R β) (Script A R β) β → Prop
  | .waiting, b => b = .waiting script
  | .active p, b => b = .active p
  | .ended p, b => ∃ e, p.ending? = some e ∧ (b = .ended e ∨ b = .joined e.outcome)
  | .dropped _, b => b = .joined .cancelled
  | .skipped, b => b = .ended .skipped ∨ b = .joined .skipped

variable {script : Script A R β} {fate : Fate A R β}

theorem shows_waiting {s : Script A R β} (h : fate.Shows script (.waiting s)) :
    fate = .waiting ∧ s = script := by
  cases fate <;> simp_all [Shows]

theorem shows_active {p : Process A R β} (h : fate.Shows script (.active p)) :
    fate = .active p := by
  cases fate <;> simp_all [Shows]

theorem shows_ended {e : Ending β} (h : fate.Shows script (.ended e)) :
    (∃ p, fate = .ended p ∧ p.ending? = some e) ∨ (fate = .skipped ∧ e = .skipped) := by
  cases fate <;> simp_all [Shows]

theorem shows_joined {o : BranchOutcome β} (h : fate.Shows script (.joined o)) :
    (∃ p e, fate = .ended p ∧ p.ending? = some e ∧ o = e.outcome)
      ∨ (∃ p, fate = .dropped p ∧ o = .cancelled) ∨ (fate = .skipped ∧ o = .skipped) := by
  cases fate <;> simp_all [Shows]

/-- The fate of a branch when its siblings are cancelled. -/
def drop (script : Script A R β) : Fate A R β → Fate A R β
  | .waiting => .dropped (.line script)
  | .active p => .dropped p
  | fate => fate

theorem shows_drop {b : Branch (Process A R β) (Script A R β) β} (h : fate.Shows script b) :
    (fate.drop script).Shows script b.cancel := by
  cases fate with
  | waiting | active p => obtain rfl := h; rfl
  | dropped p => obtain rfl := h; rfl
  | ended p =>
      obtain ⟨e, he, rfl | rfl⟩ := h
      · exact ⟨e, he, Or.inl rfl⟩
      · exact ⟨e, he, Or.inr rfl⟩
  | skipped =>
      rcases h with rfl | rfl
      · exact Or.inl rfl
      · exact Or.inr rfl

end Fate

/-! ## Fans and fates -/

/-- A fan whose branches have the given fates and the given part in a
history. -/
structure Fan.Stands (policy : FailurePolicy) (scripts : List (Script A R β))
    (fates : Nat → Fate A R β) (h : History A R)
    (f : Fan (Process A R β) (Script A R β) β) : Prop where
  length : f.branches.length = scripts.length
  /-- The fan shows the fate of every branch. -/
  shows : ∀ i script, scripts[i]? = some script →
    ∃ b, f.branches[i]? = some b ∧ (fates i).Shows script b
  /-- Only branches perform acts, and only those that were dispatched. -/
  within : h.Within scripts.length
  idle : ∀ i, (fates i).process? = none → h.below i = []
  /-- Behind a raised flag, a skipped and a dropped branch stands a fault. -/
  fault : (f.failed = true ∨ ∃ i < scripts.length, fates i = .skipped ∨ ∃ p, fates i = .dropped p) →
    ∃ i < scripts.length, ∃ p, fates i = .ended p ∧ p.Faulty
  /-- Branches are dropped when a failure is joined, if that is the policy. -/
  dropped : (∃ i < scripts.length, ∃ p, fates i = .dropped p) →
    policy = .cancelSiblings ∧ ∃ i < scripts.length, ∃ p e, fates i = .ended p
      ∧ p.ending? = some (.failed e)

namespace Fan.Stands

variable {policy : FailurePolicy} {scripts : List (Script A R β)} {fates : Nat → Fate A R β}
  {h : History A R} {f f' : Fan (Process A R β) (Script A R β) β}

/-- What stands behind a branch of the fan. -/
theorem at_branch (hs : f.Stands policy scripts fates h) {i : Nat}
    {b : Branch (Process A R β) (Script A R β) β} (hb : f.branches[i]? = some b) :
    ∃ script, scripts[i]? = some script ∧ (fates i).Shows script b := by
  have hi : i < scripts.length := hs.length ▸ (List.getElem?_eq_some_iff.mp hb).1
  obtain ⟨b', hb', hshow⟩ := hs.shows i scripts[i] (List.getElem?_eq_getElem hi)
  obtain rfl := Option.some.inj (hb.symm.trans hb')
  exact ⟨_, List.getElem?_eq_getElem hi, hshow⟩

theorem start (policy : FailurePolicy) (scripts : List (Script A R β)) :
    (Fan.start scripts).Stands policy scripts (fun _ => .waiting) [] where
  length := by simp [Fan.start]
  shows := fun i script hi => ⟨.waiting script, by simp [Fan.start, hi], rfl⟩
  within := History.within_nil _
  idle := fun _ _ => rfl
  fault := by simp [Fan.start]
  dropped := by simp

/-- One branch gets the fate `fate` and shows as `b`, and the flag becomes
`flag`, for which a fault must stand if it is raised. -/
theorem set (hs : f.Stands policy scripts fates h) {i : Nat} {script : Script A R β}
    {b : Branch (Process A R β) (Script A R β) β} (hi : scripts[i]? = some script)
    (fate : Fate A R β) (flag : Bool) (hnew : ∀ q, fates i ≠ .ended q)
    (hshow : fate.Shows script b) (hdrop : ∀ q, fate ≠ .dropped q)
    (hidle : fate.process? = none → h.below i = [])
    (hflag : flag = true ∨ fate = .skipped →
      f.failed = true ∨ ∃ p, fate = .ended p ∧ p.Faulty) :
    Fan.Stands policy scripts (Function.update fates i fate) h
      { failed := flag, branches := f.branches.set i b } := by
  have hlt : i < scripts.length := (List.getElem?_eq_some_iff.mp hi).1
  have hkeep : ∀ j p, fates j = .ended p → Function.update fates i fate j = .ended p := by
    intro j p hj
    rwa [Function.update_of_ne]
    rintro rfl
    exact hnew p hj
  refine ⟨by simp [hs.length], ?_, hs.within, ?_, ?_, ?_⟩
  · intro j s hj
    by_cases hji : j = i
    · subst hji
      obtain rfl := Option.some.inj (hi.symm.trans hj)
      exact ⟨b, List.getElem?_set_self (hs.length ▸ hlt), by rwa [Function.update_self]⟩
    · obtain ⟨b', hb', hshow'⟩ := hs.shows j s hj
      exact ⟨b', by rw [List.getElem?_set_ne (Ne.symm hji), hb'],
        by rwa [Function.update_of_ne hji]⟩
  · intro j hj
    by_cases hji : j = i
    · subst hji
      exact hidle (by rwa [Function.update_self] at hj)
    · exact hs.idle j (by rwa [Function.update_of_ne hji] at hj)
  · intro hcause
    have hold : f.failed = true ∨ (∃ p, fate = .ended p ∧ p.Faulty) ∨
        ∃ j < scripts.length, fates j = .skipped ∨ ∃ q, fates j = .dropped q := by
      rcases hcause with hflag' | ⟨j, hj, hjf⟩
      · exact (hflag (Or.inl hflag')).imp_right Or.inl
      · by_cases hji : j = i
        · subst hji
          rw [Function.update_self] at hjf
          rcases hjf with hskip | ⟨q, hq⟩
          · exact (hflag (Or.inr hskip)).imp_right Or.inl
          · exact absurd hq (hdrop q)
        · rw [Function.update_of_ne hji] at hjf
          exact Or.inr (Or.inr ⟨j, hj, hjf⟩)
    rcases hold with hfail | ⟨p, hp, hfault⟩ | hleft
    · obtain ⟨j, hj, q, hq, hfault⟩ := hs.fault (Or.inl hfail)
      exact ⟨j, hj, q, hkeep j q hq, hfault⟩
    · exact ⟨i, hlt, p, by rw [Function.update_self, hp], hfault⟩
    · obtain ⟨j, hj, q, hq, hfault⟩ := hs.fault (Or.inr hleft)
      exact ⟨j, hj, q, hkeep j q hq, hfault⟩
  · rintro ⟨j, hj, q, hq⟩
    have hji : j ≠ i := by
      rintro rfl
      exact hdrop q (by rwa [Function.update_self] at hq)
    rw [Function.update_of_ne hji] at hq
    obtain ⟨hpol, k, hk, q', e, hq', he⟩ := hs.dropped ⟨j, hj, q, hq⟩
    exact ⟨hpol, k, hk, q', e, hkeep k q' hq', he⟩

/-- A fan after one of its moves: every branch has come as far as before, or
it has just been dispatched or dropped and has done nothing yet. -/
def Succeeds (policy : FailurePolicy) (scripts : List (Script A R β))
    (fates : Nat → Fate A R β) (h : History A R)
    (f' : Fan (Process A R β) (Script A R β) β) : Prop :=
  ∃ fates', f'.Stands policy scripts fates' h ∧
    ∀ j script p, scripts[j]? = some script → (fates' j).process? = some p →
      (fates j).process? = some p ∨ (p = .line script ∧ h.below j = [])

theorem dispatch (hs : f.Stands policy scripts fates h) {limit : Option Nat} {i : Nat}
    (hf : f.dispatch? limit .line i = some f') : Succeeds policy scripts fates h f' := by
  obtain ⟨script, hb, rfl⟩ := Fan.dispatch?_eq_some hf
  obtain ⟨_, hi, hshow⟩ := hs.at_branch hb
  obtain ⟨hwait, rfl⟩ := Fate.shows_waiting hshow
  have hne : ∀ q, fates i ≠ .ended q := fun q hq => by simp [hwait] at hq
  have hidle : h.below i = [] := hs.idle i (by rw [hwait]; rfl)
  cases hflag : f.failed with
  | true =>
      refine ⟨_, hs.set hi .skipped true hne (Or.inl rfl) (by simp) (fun _ => hidle)
        (fun _ => Or.inl hflag), ?_⟩
      intro j s p hj hp
      by_cases hji : j = i
      · subst hji
        rw [Function.update_self] at hp
        cases hp
      · exact Or.inl (by rwa [Function.update_of_ne hji] at hp)
  | false =>
      refine ⟨_, hs.set hi (.active (.line script)) false hne rfl (by simp) (by simp [hidle])
        (by simp), ?_⟩
      intro j s p hj hp
      by_cases hji : j = i
      · subst hji
        obtain rfl := Option.some.inj (hi.symm.trans hj)
        rw [Function.update_self] at hp
        exact Or.inr ⟨(Option.some.inj hp).symm, hidle⟩
      · exact Or.inl (by rwa [Function.update_of_ne hji] at hp)

theorem finish (hs : f.Stands policy scripts fates h) {i : Nat}
    (hf : f.finish? Process.ending? i = some f') : Succeeds policy scripts fates h f' := by
  obtain ⟨p, e, hb, he, rfl⟩ := Fan.finish?_eq_some hf
  obtain ⟨script, hi, hshow⟩ := hs.at_branch hb
  have hact := Fate.shows_active hshow
  have hne : ∀ q, fates i ≠ .ended q := fun q hq => by simp [hact] at hq
  refine ⟨_, hs.set hi (.ended p) (f.failed || e.isFailed) hne ⟨e, he, Or.inl rfl⟩ (by simp)
    (by simp [Fate.process?]) ?_, ?_⟩
  · rintro (hflag | hskip)
    · rcases (Bool.or_eq_true ..).mp hflag with hold | hfail
      · exact Or.inl hold
      · exact Or.inr ⟨p, rfl, e, he, Or.inl hfail⟩
    · cases hskip
  · intro j s q hj hq
    by_cases hji : j = i
    · subst hji
      rw [Function.update_self] at hq
      exact Or.inl (by rw [hact]; exact hq)
    · exact Or.inl (by rwa [Function.update_of_ne hji] at hq)

/-- Joining a branch only makes its outcome known, and a crash with it. -/
theorem join_one (hs : f.Stands policy scripts fates h) {i : Nat} {e : Ending β}
    (hb : f.branches[i]? = some (.ended e)) :
    Fan.Stands policy scripts fates h
      { failed := f.failed || e.isCrashed, branches := f.branches.set i (.joined e.outcome) } := by
  obtain ⟨script, hi, hshow⟩ := hs.at_branch hb
  have hlt : i < scripts.length := (List.getElem?_eq_some_iff.mp hi).1
  have hended := Fate.shows_ended hshow
  refine ⟨by simp [hs.length], ?_, hs.within, hs.idle, ?_, hs.dropped⟩
  · intro j s hj
    by_cases hji : j = i
    · subst hji
      refine ⟨_, List.getElem?_set_self (hs.length ▸ hlt), ?_⟩
      rcases hended with ⟨p, hp, he⟩ | ⟨hskip, rfl⟩
      · rw [hp]
        exact ⟨e, he, Or.inr rfl⟩
      · rw [hskip]
        exact Or.inr rfl
    · obtain ⟨b', hb', hshow'⟩ := hs.shows j s hj
      exact ⟨b', by rw [List.getElem?_set_ne (Ne.symm hji), hb'], hshow'⟩
  · rintro (hflag | hleft)
    · rcases (Bool.or_eq_true ..).mp hflag with hold | hcrash
      · exact hs.fault (Or.inl hold)
      · rcases hended with ⟨p, hp, he⟩ | ⟨-, rfl⟩
        · exact ⟨i, hlt, p, hp, e, he, Or.inr hcrash⟩
        · cases hcrash
    · exact hs.fault (Or.inr hleft)

/-- Once a failure is known the policy may drop all that has not ended. -/
theorem cancel (hs : f.Stands policy scripts fates h) (hpol : policy = .cancelSiblings)
    (hfail : ∃ i < scripts.length, ∃ p e, fates i = .ended p ∧ p.ending? = some (.failed e)) :
    Succeeds policy scripts fates h { f with branches := f.branches.map .cancel } := by
  let fates' : Nat → Fate A R β := fun j =>
    match scripts[j]? with
    | some s => (fates j).drop s
    | none => fates j
  have hat : ∀ j s, scripts[j]? = some s → fates' j = (fates j).drop s := by
    intro j s hj
    simp only [fates', hj]
  have hended : ∀ j p, fates j = .ended p → fates' j = .ended p := by
    intro j p hj
    simp only [fates', hj]
    split <;> rfl
  obtain ⟨i, hi, p, e, hp, he⟩ := hfail
  refine ⟨fates', ⟨by simp [hs.length], ?_, hs.within, ?_, fun _ => ?_, fun _ => ?_⟩, ?_⟩
  · intro j s hj
    obtain ⟨b, hb, hshow⟩ := hs.shows j s hj
    refine ⟨b.cancel, by simp [hb], ?_⟩
    rw [hat j s hj]
    exact Fate.shows_drop hshow
  · intro j hj
    refine hs.idle j ?_
    cases hj' : scripts[j]? with
    | none => simpa [fates', hj'] using hj
    | some s =>
        rw [hat j s hj'] at hj
        revert hj
        cases fates j <;> simp [Fate.drop, Fate.process?]
  · exact ⟨i, hi, p, hended i p hp, .failed e, he, Or.inl rfl⟩
  · exact ⟨hpol, i, hi, p, e, hended i p hp, he⟩
  · intro j s q hj hq
    rw [hat j s hj] at hq
    cases hfate : fates j with
    | waiting =>
        rw [hfate] at hq
        exact Or.inr ⟨(Option.some.inj hq).symm, hs.idle j (by rw [hfate]; rfl)⟩
    | active p | ended p | dropped p => rw [hfate] at hq; exact Or.inl hq
    | skipped => rw [hfate] at hq; cases hq

theorem join (hs : f.Stands policy scripts fates h) {i : Nat}
    (hf : f.join? policy i = some f') : Succeeds policy scripts fates h f' := by
  obtain ⟨e, hb, rfl⟩ := Fan.join?_eq_some hf
  have hone := hs.join_one hb
  split
  · rename_i hcancel
    obtain ⟨hfail, hpol⟩ := (Bool.and_eq_true ..).mp hcancel
    obtain ⟨script, hi, hshow⟩ := hs.at_branch hb
    have hlt : i < scripts.length := (List.getElem?_eq_some_iff.mp hi).1
    cases e with
    | failed e =>
        rcases Fate.shows_ended hshow with ⟨p, hp, he⟩ | ⟨-, he⟩
        · exact hone.cancel (eq_of_beq hpol) ⟨i, hlt, p, e, hp, he⟩
        · cases he
    | completed v => cases hfail
    | skipped => cases hfail
    | crashed => cases hfail
  · exact ⟨fates, hone, fun _ _ _ _ hp => Or.inl hp⟩

/-- A branch that was dispatched may perform more acts. -/
theorem extend (hs : f.Stands policy scripts fates h) {i : Nat} {script : Script A R β}
    (hi : scripts[i]? = some script) (hp : (fates i).process? ≠ none) (h' : History A R) :
    f.Stands policy scripts fates (h ++ h'.under i) where
  length := hs.length
  shows := hs.shows
  within := hs.within.append (History.within_under (List.getElem?_eq_some_iff.mp hi).1 h')
  idle := by
    intro j hj
    have hij : i ≠ j := fun heq => hp (heq ▸ hj)
    rw [History.below_append, hs.idle j hj, History.below_under_ne hij, List.append_nil]
  fault := hs.fault
  dropped := hs.dropped

end Fan.Stands

/-! ## Reaching -/

/-- A task with the script `s` can have become `p` with the history `h`. -/
inductive Script.Reaches (policy : FailurePolicy) :
    Script A R β → History A R → Process A R β → Prop
  | start (s : Script A R β) : Reaches policy s [] (.line s)
  | act {a : A} {next : R a → Script A R β} {reply : R a} {h : History A R}
      {p : Process A R β} : Reaches policy (next reply) h p →
      Reaches policy (.act a next) (([], ⟨a, reply⟩) :: h) p
  | pause {ms : Nat} {next : Script A R β} {h : History A R} {p : Process A R β} :
      Reaches policy next h p → Reaches policy (.pause ms next) h p
  | fork {scripts : List (Script A R β)} {next : List (BranchOutcome β) → Script A R β}
      {fates : Nat → Fate A R β} {h : History A R}
      {f : Fan (Process A R β) (Script A R β) β} (stands : f.Stands policy scripts fates h)
      (runs : ∀ i script p, scripts[i]? = some script → (fates i).process? = some p →
        Reaches policy script (h.below i) p) :
      Reaches policy (.fork scripts next) h (.fan f next)
  | collect {scripts : List (Script A R β)} {next : List (BranchOutcome β) → Script A R β}
      {fates : Nat → Fate A R β} {h later : History A R}
      {f : Fan (Process A R β) (Script A R β) β} {outcomes : List (BranchOutcome β)}
      {p : Process A R β} (stands : f.Stands policy scripts fates h)
      (runs : ∀ i script p, scripts[i]? = some script → (fates i).process? = some p →
        Reaches policy script (h.below i) p)
      (known : f.outcomes? = some outcomes) (rest : Reaches policy (next outcomes) later p) :
      Reaches policy (.fork scripts next) (h ++ later) p

namespace Script.Reaches

open Process

variable {policy : FailurePolicy} {s : Script A R β} {h h' : History A R} {p p' : Process A R β}

/-- The fan of a fork goes on to a fan in which every branch has come as far
as before, or has done nothing yet. -/
theorem fan_succeeds {scripts : List (Script A R β)}
    {next : List (BranchOutcome β) → Script A R β} {fates : Nat → Fate A R β}
    {f' : Fan (Process A R β) (Script A R β) β}
    (runs : ∀ i script p, scripts[i]? = some script → (fates i).process? = some p →
      Reaches policy script (h.below i) p)
    (hf : Fan.Stands.Succeeds policy scripts fates h f') :
    Reaches policy (.fork scripts next) h (.fan f' next) := by
  obtain ⟨fates', hstands, hproc⟩ := hf
  refine .fork hstands fun i script p hi hp => ?_
  rcases hproc i script p hi hp with hold | ⟨rfl, hnone⟩
  · exact runs i script p hi hold
  · rw [hnone]
    exact .start script

/-- A branch of the fan of a fork goes on. -/
theorem branch_moves {scripts : List (Script A R β)}
    {next : List (BranchOutcome β) → Script A R β} {fates : Nat → Fate A R β}
    {f : Fan (Process A R β) (Script A R β) β} {i : Nat} {script : Script A R β}
    (stands : f.Stands policy scripts fates h)
    (runs : ∀ i script p, scripts[i]? = some script → (fates i).process? = some p →
      Reaches policy script (h.below i) p)
    (hi : scripts[i]? = some script) (hact : fates i = .active p)
    (hgo : Reaches policy script (h.below i ++ h') p') :
    Reaches policy (.fork scripts next) (h ++ h'.under i)
      (.fan { f with branches := f.branches.set i (.active p') } next) := by
  have hset := (stands.set hi (b := .active p') (.active p') f.failed (by simp [hact]) rfl
    (by simp) (by simp [Fate.process?]) (by simp +contextual)).extend hi (by simp [Fate.process?]) h'
  refine .fork hset fun j t q hj hq => ?_
  rw [History.below_append]
  by_cases hji : j = i
  · subst hji
    obtain rfl := Option.some.inj (hi.symm.trans hj)
    rw [Function.update_self] at hq
    obtain rfl := Option.some.inj hq
    rwa [History.below_under_same]
  · rw [Function.update_of_ne hji] at hq
    rw [History.below_under_ne (Ne.symm hji), List.append_nil]
    exact runs j t q hj hq

theorem moves {config : FanoutConfig} (hr : Reaches config.failure s h p)
    (hm : Moves config p h' p') : Reaches config.failure s (h ++ h') p' := by
  induction hr generalizing h' p' with
  | start s =>
      cases hm with
      | act a next reply => exact .act (.start _)
      | pause ms next => exact .pause (.start _)
      | fork branches next =>
          refine .fork (.start _ _) fun i script p hi hp => ?_
          cases hp
  | act _ ih => exact .act (ih hm)
  | pause _ ih => exact .pause (ih hm)
  | @fork scripts next fates h f stands runs ih =>
      cases hm with
      | dispatch hf => rw [List.append_nil]; exact fan_succeeds runs (stands.dispatch hf)
      | finish hf => rw [List.append_nil]; exact fan_succeeds runs (stands.finish hf)
      | join hf => rw [List.append_nil]; exact fan_succeeds runs (stands.join hf)
      | collect hf => exact .collect stands runs hf (.start _)
      | @branch _ _ i q q' _ hi hq =>
          obtain ⟨script, hs, hshow⟩ := stands.at_branch hi
          have hact := Fate.shows_active hshow
          have hproc : (fates i).process? = some q := by rw [hact]; rfl
          exact branch_moves stands runs hs hact (ih i script q hs hproc hq)
  | collect stands runs known _ _ ih =>
      rw [List.append_assoc]
      exact .collect stands runs known (ih hm)

end Script.Reaches

/-- What a run makes of a task, its script can reach. -/
theorem Process.Run.reaches {config : FanoutConfig} {perform : (a : A) → W → R a × W}
    {drift : W → W → Prop} {s : Script A R β} {w₀ w : W} {h : History A R} {p : Process A R β}
    (hrun : Process.Run config perform drift (.line s) w₀ h p w) :
    s.Reaches config.failure h p := by
  induction hrun with
  | start => exact .start s
  | drift _ _ ih => exact ih
  | move path m _ hm ih => exact ih.moves (moves_of_move? hm)

end Ensemble
