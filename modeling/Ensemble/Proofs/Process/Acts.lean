import Ensemble.Proofs.Process.Ending

/-!
# Which acts are performed

`Prog.All P` and `Script.All P` say that a program or a script asks for no
acts but those with `P`, whatever the replies. What is performed in any
run then has `P` too.
-/

namespace Ensemble

variable {A : Type} {R : A → Type} {α β γ : Type} {P Q : A → Prop}

namespace Prog

/-- All acts that the program can ask for. -/
def All (P : A → Prop) : Prog A R α → Prop
  | .ret _ => True
  | .act a next => P a ∧ ∀ reply, (next reply).All P
  | .pause _ next => next.All P
  | .crash => True

variable {p q : Prog A R α} {f : α → Prog A R γ} {xs : List (Exchange A R)}

theorem All.bind (hp : p.All P) (hf : ∀ a, (f a).All P) : (p.bind f).All P := by
  induction p with
  | ret a => exact hf a
  | act a next ih => exact ⟨hp.1, fun reply => ih reply (hp.2 reply)⟩
  | pause ms next ih => exact ih hp
  | crash => trivial

theorem All.mono (hp : p.All P) (hPQ : ∀ a, P a → Q a) : p.All Q := by
  induction p with
  | ret a => trivial
  | act a next ih => exact ⟨hPQ a hp.1, fun reply => ih reply (hp.2 reply)⟩
  | pause ms next ih => exact ih hp
  | crash => trivial

theorem All.of_runs (hp : p.All P) (hr : p.Runs xs q) : ∀ x ∈ xs, P x.act := by
  induction hr with
  | refl p => simp
  | act _ ih =>
      intro x hx
      rcases List.mem_cons.mp hx with rfl | hx
      · exact hp.1
      · exact ih (hp.2 _) x hx
  | pause _ ih => exact ih hp

theorem All.of_ends (hp : p.All P) {out : Option α} (hr : p.Ends xs out) :
    ∀ x ∈ xs, P x.act := by
  cases out with
  | none => exact hp.of_runs hr
  | some a => exact hp.of_runs hr

/-- The program does not crash, whatever the replies. -/
def Safe : Prog A R α → Prop
  | .ret _ => True
  | .act _ next => ∀ reply, (next reply).Safe
  | .pause _ next => next.Safe
  | .crash => False

theorem Safe.bind (hp : p.Safe) (hf : ∀ a, (f a).Safe) : (p.bind f).Safe := by
  induction p with
  | ret a => exact hf a
  | act a next ih => exact fun reply => ih reply (hp reply)
  | pause ms next ih => exact ih hp
  | crash => exact hp.elim

theorem Safe.not_ends_none (hp : p.Safe) : ¬p.Ends xs none := by
  intro hr
  generalize hq : (Prog.crash : Prog A R α) = q at hr
  have hruns : p.Runs xs q := hq ▸ hr
  clear hr
  induction hruns with
  | refl p =>
      subst hq
      exact hp
  | act _ ih => exact ih (hp _) hq
  | pause _ ih => exact ih hp hq

end Prog

/-- What the branches of a fan have performed, one of those that were
dispatched has. -/
theorem Fan.Stands.mem_branch {policy : FailurePolicy} {scripts : List (Script A R β)}
    {fates : Nat → Fate A R β} {h : History A R} {f : Fan (Process A R β) (Script A R β) β}
    (hs : f.Stands policy scripts fates h) {x : List Nat × Exchange A R} (hx : x ∈ h) :
    ∃ i script p path, scripts[i]? = some script ∧ (fates i).process? = some p
      ∧ x.1 = i :: path ∧ (path, x.2) ∈ h.below i := by
  obtain ⟨i, hi, path, hpath⟩ := hs.within x hx
  have hmem : (path, x.2) ∈ h.below i := History.mem_below.mpr (hpath ▸ hx)
  cases hproc : (fates i).process? with
  | none => rw [hs.idle i hproc] at hmem; cases hmem
  | some p => exact ⟨i, _, p, path, List.getElem?_eq_getElem hi, hproc, hpath, hmem⟩

namespace Script

/-- All acts that the script can ask for, in its branches too. -/
inductive All (P : A → Prop) : Script A R β → Prop
  | ret (r : Except FlowError β) : All P (.ret r)
  | act {a : A} {next : R a → Script A R β} (head : P a) (tail : ∀ reply, All P (next reply)) :
      All P (.act a next)
  | pause {ms : Nat} {next : Script A R β} (tail : All P next) : All P (.pause ms next)
  | crash : All P .crash
  | fork {branches : List (Script A R β)} {next : List (BranchOutcome β) → Script A R β}
      (inner : ∀ s ∈ branches, All P s) (tail : ∀ outcomes, All P (next outcomes)) :
      All P (.fork branches next)

variable {s : Script A R β} {policy : FailurePolicy} {h : History A R} {p : Process A R β}

theorem all_andThen_prog {prog : Prog A R α} {k : α → Script A R β} (hp : prog.All P)
    (hk : ∀ a, (k a).All P) : (prog.andThen k).All P := by
  induction prog with
  | ret a => exact hk a
  | act a next ih => exact .act hp.1 fun reply => ih reply (hp.2 reply)
  | pause ms next ih => exact .pause (ih hp)
  | crash => exact .crash

theorem All.andThen {k : Except FlowError β → Script A R β} (hs : s.All P)
    (hk : ∀ r, (k r).All P) : (s.andThen k).All P := by
  induction hs with
  | ret r => exact hk r
  | act head _ ih => exact .act head ih
  | pause _ ih => exact .pause ih
  | crash => exact .crash
  | fork inner _ _ ih => exact .fork inner ih

theorem All.mono (hs : s.All P) (hPQ : ∀ a, P a → Q a) : s.All Q := by
  induction hs with
  | ret r => exact .ret r
  | act head _ ih => exact .act (hPQ _ head) ih
  | pause _ ih => exact .pause ih
  | crash => exact .crash
  | fork _ _ ih ih' => exact .fork ih ih'

theorem All.of_reaches (hs : s.All P) (hr : s.Reaches policy h p) : ∀ x ∈ h, P x.2.act := by
  induction hr with
  | start s => simp
  | act _ ih =>
      cases hs with
      | act head tail =>
          intro x hx
          rcases List.mem_cons.mp hx with rfl | hx
          · exact head
          · exact ih (tail _) x hx
  | pause _ ih =>
      cases hs with
      | pause tail => exact ih tail
  | @fork scripts next fates h f stands runs ih =>
      cases hs with
      | fork inner tail =>
          intro x hx
          obtain ⟨i, script, p, path, hs, hproc, -, hmem⟩ := stands.mem_branch hx
          exact ih i script p hs hproc (inner _ (List.mem_of_getElem? hs)) (path, x.2) hmem
  | @collect scripts next fates h later f outcomes p stands runs known _ ih ih' =>
      cases hs with
      | fork inner tail =>
          intro x hx
          rcases List.mem_append.mp hx with hx | hx
          · obtain ⟨i, script, p, path, hs, hproc, -, hmem⟩ := stands.mem_branch hx
            exact ih i script p hs hproc (inner _ (List.mem_of_getElem? hs)) (path, x.2) hmem
          · exact ih' (tail _) x hx

end Script

end Ensemble
