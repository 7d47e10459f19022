import Ensemble.Proofs.Process.Reach

/-!
# How scripts end

`Prog.Runs` and `Prog.Ends` are to programs what `Script.Reaches` and
`Script.Ends` are to scripts: the first lets a task stop anywhere, the
second follows it to its end. The lemmas of this file take a run of a
composed script apart, at `bind`, at `andThen` and at a fork, so that
what a script does can be read off its parts.

At a fork `Joined` says what the node learns: the outcomes of branches
that have ended, each with its own part of the history, and which
branches may be missing among them.
-/

namespace Ensemble

variable {A : Type} {R : A → Type} {α β γ W : Type}

/-! ## Programs -/

namespace Prog

/-- The program can go on as `q` after some exchanges. -/
inductive Runs : Prog A R α → List (Exchange A R) → Prog A R α → Prop
  | refl (p : Prog A R α) : Runs p [] p
  | act {a : A} {next : R a → Prog A R α} {reply : R a} {xs : List (Exchange A R)}
      {q : Prog A R α} : Runs (next reply) xs q → Runs (.act a next) (⟨a, reply⟩ :: xs) q
  | pause {ms : Nat} {next q : Prog A R α} {xs : List (Exchange A R)} :
      Runs next xs q → Runs (.pause ms next) xs q

/-- The program can end with a result, or without one if it crashes. -/
def Ends (p : Prog A R α) (xs : List (Exchange A R)) : Option α → Prop
  | some a => Runs p xs (.ret a)
  | none => Runs p xs .crash

variable {p q : Prog A R α} {f : α → Prog A R γ} {xs : List (Exchange A R)}

theorem runs_crash (h : Runs .crash xs q) : xs = [] ∧ q = .crash := by
  cases h
  exact ⟨rfl, rfl⟩

theorem runs_act {a : A} {next : R a → Prog A R α} (h : Runs (.act a next) xs q) :
    xs = [] ∨ ∃ reply ys, xs = ⟨a, reply⟩ :: ys ∧ Runs (next reply) ys q := by
  cases h with
  | refl => exact Or.inl rfl
  | act h => exact Or.inr ⟨_, _, rfl, h⟩

theorem ends_ret {a : α} {out : Option α} (h : Ends (.ret a) xs out) : xs = [] ∧ out = some a := by
  cases out with
  | none => cases h
  | some b => cases h; exact ⟨rfl, rfl⟩

theorem ends_crash {out : Option α} (h : Ends .crash xs out) : xs = [] ∧ out = none := by
  cases out with
  | none => cases h; exact ⟨rfl, rfl⟩
  | some b => cases h

theorem ends_act {a : A} {next : R a → Prog A R α} {out : Option α}
    (h : Ends (.act a next) xs out) :
    ∃ reply ys, xs = ⟨a, reply⟩ :: ys ∧ Ends (next reply) ys out := by
  cases out <;> cases h <;> exact ⟨_, _, rfl, ‹_›⟩

theorem ends_pause {ms : Nat} {next : Prog A R α} {out : Option α}
    (h : Ends (.pause ms next) xs out) : Ends next xs out := by
  cases out <;> cases h <;> assumption

theorem Runs.ends {ys : List (Exchange A R)} {out : Option α} (h : Runs p xs q)
    (hends : Ends q ys out) : Ends p (xs ++ ys) out := by
  induction h with
  | refl p => exact hends
  | act _ ih => cases out <;> exact Runs.act (ih hends)
  | pause _ ih => cases out <;> exact Runs.pause (ih hends)

/-- Every program can end. -/
theorem exists_ends (hR : ∀ a, Nonempty (R a)) (p : Prog A R α) : ∃ xs out, Ends p xs out := by
  induction p with
  | ret a => exact ⟨[], some a, .refl _⟩
  | crash => exact ⟨[], none, .refl _⟩
  | act a next ih =>
      obtain ⟨reply⟩ := hR a
      obtain ⟨xs, out, hends⟩ := ih reply
      exact ⟨_, out, (Runs.act (.refl (next reply))).ends hends⟩
  | pause ms next ih =>
      obtain ⟨xs, out, hends⟩ := ih
      exact ⟨xs, out, (Runs.pause (.refl next)).ends hends⟩

/-- Runs a program in a world, in which nothing else happens: what it has
performed, and its result if it does not crash. -/
def alone (perform : (a : A) → W → R a × W) :
    Prog A R α → W → List (Exchange A R) × Option α
  | .ret a, _ => ([], some a)
  | .act a next, w =>
    let (reply, w') := perform a w
    let (xs, out) := (next reply).alone perform w'
    (⟨a, reply⟩ :: xs, out)
  | .pause _ next, w => next.alone perform w
  | .crash, _ => ([], none)

theorem ends_alone (perform : (a : A) → W → R a × W) (p : Prog A R α) (w : W) :
    p.Ends (p.alone perform w).1 (p.alone perform w).2 := by
  induction p generalizing w with
  | ret a => exact Runs.refl _
  | crash => exact Runs.refl _
  | act a next ih =>
      exact (Runs.act (.refl (next (perform a w).1))).ends (ih (perform a w).1 (perform a w).2)
  | pause ms next ih => exact (Runs.pause (.refl next)).ends (ih w)

/-- A composed program is still in its first part, or that part has a
result with which the second one goes on. -/
theorem runs_bind {q : Prog A R γ} (h : Runs (p.bind f) xs q) :
    (∃ p', Runs p xs p' ∧ q = p'.bind f) ∨
      ∃ ys zs a, xs = ys ++ zs ∧ Runs p ys (.ret a) ∧ Runs (f a) zs q := by
  induction p generalizing xs with
  | ret a => exact Or.inr ⟨[], xs, a, rfl, .refl _, h⟩
  | crash =>
      obtain ⟨rfl, rfl⟩ := runs_crash h
      exact Or.inl ⟨.crash, .refl _, rfl⟩
  | act a next ih =>
      cases h with
      | refl => exact Or.inl ⟨.act a next, .refl _, rfl⟩
      | act h =>
          rcases ih _ h with ⟨p', hp, rfl⟩ | ⟨ys, zs, b, rfl, hp, hf⟩
          · exact Or.inl ⟨p', .act hp, rfl⟩
          · exact Or.inr ⟨_ :: ys, zs, b, rfl, .act hp, hf⟩
  | pause ms next ih =>
      cases h with
      | refl => exact Or.inl ⟨.pause ms next, .refl _, rfl⟩
      | pause h =>
          rcases ih h with ⟨p', hp, rfl⟩ | ⟨ys, zs, b, rfl, hp, hf⟩
          · exact Or.inl ⟨p', .pause hp, rfl⟩
          · exact Or.inr ⟨ys, zs, b, rfl, .pause hp, hf⟩

theorem ends_bind {out : Option γ} (h : Ends (p.bind f) xs out) :
    (Ends p xs none ∧ out = none) ∨
      ∃ ys zs a, xs = ys ++ zs ∧ Ends p ys (some a) ∧ Ends (f a) zs out := by
  induction p generalizing xs with
  | ret a => exact Or.inr ⟨[], xs, a, rfl, .refl _, h⟩
  | crash =>
      obtain ⟨rfl, rfl⟩ := ends_crash h
      exact Or.inl ⟨.refl _, rfl⟩
  | act a next ih =>
      obtain ⟨reply, ys, rfl, hnext⟩ := ends_act h
      rcases ih reply hnext with ⟨hp, rfl⟩ | ⟨ys, zs, b, rfl, hp, hf⟩
      · exact Or.inl ⟨.act hp, rfl⟩
      · exact Or.inr ⟨_ :: ys, zs, b, rfl, .act hp, hf⟩
  | pause ms next ih =>
      rcases ih (ends_pause h) with ⟨hp, rfl⟩ | ⟨ys, zs, b, rfl, hp, hf⟩
      · exact Or.inl ⟨.pause hp, rfl⟩
      · exact Or.inr ⟨ys, zs, b, rfl, .pause hp, hf⟩

end Prog

/-! ## Endings of processes -/

namespace Process

/-- A task that has ended has a result, or it has crashed. -/
theorem ending?_eq_some {p : Process A R β} {e : Ending β} (h : p.ending? = some e) :
    (∃ r, p = .line (.ret r) ∧ e = .ofResult r) ∨ (p = .line .crash ∧ e = .crashed) := by
  cases p with
  | fan f next => cases h
  | line s =>
      cases s with
      | ret r => exact Or.inl ⟨r, rfl, (Option.some.inj h).symm⟩
      | crash => exact Or.inr ⟨rfl, (Option.some.inj h).symm⟩
      | act a next => cases h
      | pause ms next => cases h
      | fork branches next => cases h

/-- The process goes on with the result of the task. -/
def andThen (k : Except FlowError β → Script A R β) : Process A R β → Process A R β
  | .line s => .line (s.andThen k)
  | .fan f next => .fan f fun outcomes => (next outcomes).andThen k

end Process

theorem Ending.ofResult_injective {r r' : Except FlowError β}
    (h : Ending.ofResult r = Ending.ofResult r') : r = r' := by
  cases r <;> cases r' <;> simp_all [Ending.ofResult]

/-! ## Scripts -/

namespace Script

/-- Induction on a script: a fork has its branches and all that can follow
it below it. -/
@[induction_eliminator]
theorem ind {motive : Script A R β → Prop} (ret : ∀ r, motive (.ret r))
    (act : ∀ a next, (∀ reply, motive (next reply)) → motive (.act a next))
    (pause : ∀ ms next, motive next → motive (.pause ms next)) (crash : motive .crash)
    (fork : ∀ scripts next, (∀ s ∈ scripts, motive s) → (∀ outcomes, motive (next outcomes)) →
      motive (.fork scripts next)) (s : Script A R β) : motive s :=
  s.rec (motive_1 := motive) (motive_2 := fun scripts => ∀ s ∈ scripts, motive s) ret act pause
    crash (fun scripts next hs hn => fork scripts next hs hn) (by simp)
    (fun s rest hs hrest t ht => (List.mem_cons.mp ht).elim (fun heq => heq ▸ hs) (hrest t))

variable {policy : FailurePolicy} {s : Script A R β} {h : History A R} {p : Process A R β}
  {e : Ending β}

/-- A task with the script `s` can end with the history `h`. -/
def Ends (policy : FailurePolicy) (s : Script A R β) (h : History A R) (e : Ending β) : Prop :=
  ∃ p : Process A R β, s.Reaches policy h p ∧ p.ending? = some e

theorem reaches_ret {r : Except FlowError β} (hr : Reaches policy (.ret r) h p) :
    h = [] ∧ p = .line (.ret r) := by
  cases hr
  exact ⟨rfl, rfl⟩

theorem ends_ret {r : Except FlowError β} (hr : Ends policy (.ret r) h e) :
    h = [] ∧ e = .ofResult r := by
  obtain ⟨p, hp, he⟩ := hr
  obtain ⟨rfl, rfl⟩ := reaches_ret hp
  exact ⟨rfl, (Option.some.inj he).symm⟩

/-- A task with a result has reached it. -/
theorem ends_ofResult {r : Except FlowError β} :
    Ends policy s h (.ofResult r) ↔ s.Reaches policy h (.line (.ret r)) := by
  constructor
  · rintro ⟨p, hp, he⟩
    rcases Process.ending?_eq_some he with ⟨r', rfl, heq⟩ | ⟨-, heq⟩
    · rwa [Ending.ofResult_injective heq]
    · cases r <;> cases heq
  · exact fun hr => ⟨_, hr, rfl⟩

/-- A program that a script begins with is still going on, or it has a
result with which the script goes on. -/
theorem reaches_prog {prog : Prog A R α} {k : α → Script A R β}
    (hr : (prog.andThen k).Reaches policy h p) :
    (∃ xs q, prog.Runs xs q ∧ h = .own xs ∧ p = .line (q.andThen k)) ∨
      ∃ xs a later, prog.Runs xs (.ret a) ∧ h = .own xs ++ later
        ∧ (k a).Reaches policy later p := by
  induction prog generalizing h with
  | ret a => exact Or.inr ⟨[], a, h, .refl _, rfl, hr⟩
  | crash =>
      cases hr
      exact Or.inl ⟨[], .crash, .refl _, rfl, rfl⟩
  | act a next ih =>
      cases hr with
      | start => exact Or.inl ⟨[], .act a next, .refl _, rfl, rfl⟩
      | act hr =>
          rcases ih _ hr with ⟨xs, q, hq, rfl, rfl⟩ | ⟨xs, b, later, hq, rfl, hk⟩
          · exact Or.inl ⟨_ :: xs, q, .act hq, rfl, rfl⟩
          · exact Or.inr ⟨_ :: xs, b, later, .act hq, rfl, hk⟩
  | pause ms next ih =>
      cases hr with
      | start => exact Or.inl ⟨[], .pause ms next, .refl _, rfl, rfl⟩
      | pause hr =>
          rcases ih hr with ⟨xs, q, hq, rfl, rfl⟩ | ⟨xs, b, later, hq, rfl, hk⟩
          · exact Or.inl ⟨xs, q, .pause hq, rfl, rfl⟩
          · exact Or.inr ⟨xs, b, later, .pause hq, rfl, hk⟩

theorem ends_prog {prog : Prog A R α} {k : α → Script A R β}
    (hr : (prog.andThen k).Ends policy h e) :
    (∃ xs, prog.Ends xs none ∧ h = .own xs ∧ e = .crashed) ∨
      ∃ xs a later, prog.Ends xs (some a) ∧ h = .own xs ++ later ∧ (k a).Ends policy later e := by
  obtain ⟨p, hr, he⟩ := hr
  rcases reaches_prog hr with ⟨xs, q, hq, rfl, rfl⟩ | ⟨xs, a, later, hq, rfl, hk⟩
  · cases q with
    | ret a => exact Or.inr ⟨xs, a, [], hq, by simp, _, .start _, he⟩
    | crash => exact Or.inl ⟨xs, hq, rfl, (Option.some.inj he).symm⟩
    | act a next => cases he
    | pause ms next => cases he
  · exact Or.inr ⟨xs, a, later, hq, rfl, p, hk, he⟩

theorem reaches_andThen {k : Except FlowError β → Script A R β}
    (hr : (s.andThen k).Reaches policy h p) :
    (∃ q, s.Reaches policy h q ∧ p = q.andThen k) ∨
      ∃ before later r, h = before ++ later ∧ s.Reaches policy before (.line (.ret r))
        ∧ (k r).Reaches policy later p := by
  induction s generalizing h p with
  | ret r => exact Or.inr ⟨[], h, r, rfl, .start _, hr⟩
  | crash =>
      cases hr
      exact Or.inl ⟨.line .crash, .start _, rfl⟩
  | act a next ih =>
      cases hr with
      | start => exact Or.inl ⟨.line (.act a next), .start _, rfl⟩
      | act hr =>
          rcases ih _ hr with ⟨q, hq, rfl⟩ | ⟨before, later, r, rfl, hq, hk⟩
          · exact Or.inl ⟨q, .act hq, rfl⟩
          · exact Or.inr ⟨_ :: before, later, r, rfl, .act hq, hk⟩
  | pause ms next ih =>
      cases hr with
      | start => exact Or.inl ⟨.line (.pause ms next), .start _, rfl⟩
      | pause hr =>
          rcases ih hr with ⟨q, hq, rfl⟩ | ⟨before, later, r, rfl, hq, hk⟩
          · exact Or.inl ⟨q, .pause hq, rfl⟩
          · exact Or.inr ⟨before, later, r, rfl, .pause hq, hk⟩
  | fork scripts next _ ih =>
      cases hr with
      | start => exact Or.inl ⟨.line (.fork scripts next), .start _, rfl⟩
      | fork stands runs => exact Or.inl ⟨.fan _ next, .fork stands runs, rfl⟩
      | @collect _ _ _ h later _ outcomes _ stands runs known rest =>
          rcases ih outcomes rest with ⟨q, hq, rfl⟩ | ⟨before, after, r, rfl, hq, hk⟩
          · exact Or.inl ⟨q, .collect stands runs known hq, rfl⟩
          · exact Or.inr ⟨h ++ before, after, r, by rw [List.append_assoc],
              .collect stands runs known hq, hk⟩

theorem ends_andThen {k : Except FlowError β → Script A R β}
    (hr : (s.andThen k).Ends policy h e) :
    (s.Ends policy h .crashed ∧ e = .crashed) ∨
      ∃ before later r, h = before ++ later ∧ s.Ends policy before (.ofResult r)
        ∧ (k r).Ends policy later e := by
  obtain ⟨p, hr, he⟩ := hr
  rcases reaches_andThen hr with ⟨q, hq, rfl⟩ | ⟨before, later, r, rfl, hq, hk⟩
  · cases q with
    | fan f next => cases he
    | line t =>
        cases t with
        | ret r => exact Or.inr ⟨h, [], r, by simp, ends_ofResult.mpr hq, _, .start _, he⟩
        | crash => exact Or.inl ⟨⟨_, hq, rfl⟩, (Option.some.inj he).symm⟩
        | act a next => cases he
        | pause ms next => cases he
        | fork branches next => cases he
  · exact Or.inr ⟨before, later, r, rfl, ends_ofResult.mpr hq, p, hk, he⟩

end Script

/-! ## Forks -/

/-- What the node of a fork learns of its branches, which have performed
`h`. -/
structure Joined (policy : FailurePolicy) (scripts : List (Script A R β)) (h : History A R)
    (outcomes : List (BranchOutcome β)) : Prop where
  length : outcomes.length = scripts.length
  within : h.Within scripts.length
  /-- Whatever the outcome of a branch, its part of the history is its own. -/
  reaches : ∀ (i : Nat) (script : Script A R β), scripts[i]? = some script →
    ∃ p : Process A R β, script.Reaches policy (h.below i) p
  /-- A branch has ended by itself, was left out or was dropped. -/
  outcome : ∀ (i : Nat) (script : Script A R β) (o : BranchOutcome β),
    scripts[i]? = some script → outcomes[i]? = some o →
    (∃ e, script.Ends policy (h.below i) e ∧ o = e.outcome)
      ∨ (o = .skipped ∧ h.below i = []) ∨ (o = .cancelled ∧ policy = .cancelSiblings)
  /-- If a branch is missing, another one has failed or crashed. -/
  fault : (.skipped ∈ outcomes ∨ .cancelled ∈ outcomes) →
    ∃ (i : Nat) (script : Script A R β) (e : Ending β), scripts[i]? = some script
      ∧ script.Ends policy (h.below i) e ∧ (e.isFailed = true ∨ e.isCrashed = true)
      ∧ outcomes[i]? = some e.outcome

namespace Fan

variable {policy : FailurePolicy} {scripts : List (Script A R β)} {fates : Nat → Fate A R β}
  {h : History A R} {f : Fan (Process A R β) (Script A R β) β} {outcomes : List (BranchOutcome β)}

theorem outcomes?_eq_some {φ σ : Type} {f : Fan φ σ β} (hf : f.outcomes? = some outcomes) :
    f.branches = outcomes.map .joined := by
  unfold Fan.outcomes? at hf
  generalize f.branches = bs at hf
  induction bs generalizing outcomes with
  | nil => obtain rfl : [] = outcomes := by simpa using hf
           rfl
  | cons b bs ih =>
      simp only [List.mapM_cons, Option.pure_def, Option.bind_eq_bind, Option.bind_eq_some_iff,
        Option.some.injEq] at hf
      obtain ⟨o, ho, os, hos, rfl⟩ := hf
      cases b with
      | joined o' =>
          obtain rfl := Option.some.inj ho
          rw [ih hos]
          rfl
      | waiting s => cases ho
      | active p => cases ho
      | ended e => cases ho

/-- A fan whose outcomes are all known tells its node of them. -/
theorem Stands.joined (hs : f.Stands policy scripts fates h)
    (runs : ∀ i script p, scripts[i]? = some script → (fates i).process? = some p →
      script.Reaches policy (h.below i) p) (hf : f.outcomes? = some outcomes) :
    Joined policy scripts h outcomes := by
  have hbranches := outcomes?_eq_some hf
  have hshown : ∀ i script o, scripts[i]? = some script → outcomes[i]? = some o →
      (fates i).Shows script (.joined o) := by
    intro i script o hi ho
    obtain ⟨b, hb, hshow⟩ := hs.shows i script hi
    rw [hbranches, List.getElem?_map, ho] at hb
    obtain rfl := Option.some.inj hb
    exact hshow
  have hlength : outcomes.length = scripts.length := by rw [← hs.length, hbranches, List.length_map]
  have hends : ∀ i script p e, scripts[i]? = some script → fates i = .ended p →
      p.ending? = some e → script.Ends policy (h.below i) e :=
    fun i script p e hi hfate he => ⟨p, runs i script p hi (by rw [hfate]; rfl), he⟩
  refine ⟨hlength, hs.within, ?_, ?_, ?_⟩
  · intro i script hi
    cases hproc : (fates i).process? with
    | some p => exact ⟨p, runs i script p hi hproc⟩
    | none =>
        rw [hs.idle i hproc]
        exact ⟨_, .start script⟩
  · intro i script o hi ho
    rcases Fate.shows_joined (hshown i script o hi ho) with
      ⟨p, e, hfate, he, rfl⟩ | ⟨p, hfate, rfl⟩ | ⟨hfate, rfl⟩
    · exact Or.inl ⟨e, hends i script p e hi hfate he, rfl⟩
    · have hlt : i < scripts.length := (List.getElem?_eq_some_iff.mp hi).1
      exact Or.inr (Or.inr ⟨rfl, (hs.dropped ⟨i, hlt, p, hfate⟩).1⟩)
    · exact Or.inr (Or.inl ⟨rfl, hs.idle i (by rw [hfate]; rfl)⟩)
  · intro hmissing
    -- the outcome that is missing is itself a crash, or its fate is behind it
    have hcause : (∃ i < scripts.length, ∃ p, fates i = .ended p ∧ p.Faulty) := by
      obtain ⟨o, ho, hmem⟩ : ∃ o, (o = .skipped ∨ o = .cancelled) ∧ o ∈ outcomes :=
        hmissing.elim (fun hm => ⟨_, Or.inl rfl, hm⟩) (fun hm => ⟨_, Or.inr rfl, hm⟩)
      obtain ⟨i, hi⟩ := List.mem_iff_getElem?.mp hmem
      have hlt : i < scripts.length := hlength ▸ (List.getElem?_eq_some_iff.mp hi).1
      rcases Fate.shows_joined (hshown i _ o (List.getElem?_eq_getElem hlt) hi) with
        ⟨p, e, hfate, he, rfl⟩ | ⟨p, hfate, rfl⟩ | ⟨hfate, rfl⟩
      · rcases Process.ending?_eq_some he with ⟨r, -, rfl⟩ | ⟨-, rfl⟩
        · cases r <;> rcases ho with ho | ho <;> cases ho
        · exact ⟨i, hlt, p, hfate, .crashed, he, Or.inr rfl⟩
      · exact hs.fault (Or.inr ⟨i, hlt, Or.inr ⟨p, hfate⟩⟩)
      · exact hs.fault (Or.inr ⟨i, hlt, Or.inl hfate⟩)
    obtain ⟨i, hlt, p, hfate, e, he, hfault⟩ := hcause
    have hi : scripts[i]? = some scripts[i] := List.getElem?_eq_getElem hlt
    refine ⟨i, scripts[i], e, hi, hends i _ p e hi hfate he, hfault, ?_⟩
    obtain ⟨b, hb, hshow⟩ := hs.shows i _ hi
    rw [hbranches, List.getElem?_map] at hb
    obtain ⟨o, ho, rfl⟩ := Option.map_eq_some_iff.mp hb
    rcases Fate.shows_joined hshow with ⟨q, e', hq, he', rfl⟩ | ⟨q, hq, -⟩ | ⟨hq, -⟩
    · obtain rfl : p = q := by simpa [hfate] using hq
      obtain rfl := Option.some.inj (he.symm.trans he')
      exact ho
    · simp [hfate] at hq
    · simp [hfate] at hq

end Fan

/-- A fork that has ended has joined all its branches. -/
theorem Script.ends_fork {policy : FailurePolicy} {scripts : List (Script A R β)}
    {next : List (BranchOutcome β) → Script A R β} {h : History A R} {e : Ending β}
    (hr : (Script.fork scripts next).Ends policy h e) :
    ∃ before later outcomes, h = before ++ later ∧ Joined policy scripts before outcomes
      ∧ (next outcomes).Ends policy later e := by
  obtain ⟨p, hr, he⟩ := hr
  cases hr with
  | start => cases he
  | fork stands runs => cases he
  | collect stands runs known rest =>
      exact ⟨_, _, _, rfl, stands.joined runs known, p, rest, he⟩

end Ensemble
