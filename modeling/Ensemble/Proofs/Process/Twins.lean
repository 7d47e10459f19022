import Ensemble.Proofs.Process.Acts
import Ensemble.Proofs.Process.Run
import Mathlib.Data.List.Forall2
import Mathlib.Data.Option.Defs

/-!
# Two runs, move by move

Two runs can be alike although they do not perform the same acts: it may not
matter what some acts say, or what is replied to them. A `Likeness` says
which acts, and which replies to them, are as good as each other. Scripts are
twins if they ask for like acts, and go on as twins after like replies; a
process is the twin of another one if the two have come to the same place in
twin scripts.

A program whose acts all count is its own twin (`Prog.twin_of_all`). Twin
processes can make the same moves, and stay twins (`Process.move?_twin`): they
have the same branches waiting, running and ended, with the same endings.
-/

namespace Ensemble

variable {A : Type} {R : A → Type} {α β γ : Type}

/-- Acts that are as good as each other, also with their replies. -/
structure Likeness (A : Type) (R : A → Type) where
  act : A → A → Prop
  exchange : Exchange A R → Exchange A R → Prop

/-- An act that is like itself only when it gets the same reply. -/
structure Likeness.Counts (L : Likeness A R) (a : A) : Prop where
  act : L.act a a
  reply : ∀ reply reply', L.exchange ⟨a, reply⟩ ⟨a, reply'⟩ → reply = reply'

/-- Like acts have like replies, and lead to worlds that are related again. -/
def Likeness.Performs {W : Type} (L : Likeness A R) (perform : (a : A) → W → R a × W)
    (S : W → W → Prop) : Prop :=
  ∀ a a' w w', L.act a a' → S w w' →
    L.exchange ⟨a, (perform a w).1⟩ ⟨a', (perform a' w').1⟩ ∧ S (perform a w).2 (perform a' w').2

variable {L : Likeness A R}

/-! ## Programs -/

namespace Prog

inductive Twin (L : Likeness A R) : Prog A R α → Prog A R α → Prop
  | ret (a : α) : Twin L (.ret a) (.ret a)
  | act {a a' : A} {next : R a → Prog A R α} {next' : R a' → Prog A R α} (head : L.act a a')
      (tail : ∀ reply reply', L.exchange ⟨a, reply⟩ ⟨a', reply'⟩ →
        Twin L (next reply) (next' reply')) : Twin L (.act a next) (.act a' next')
  | pause {ms : Nat} {next next' : Prog A R α} (tail : Twin L next next') :
      Twin L (.pause ms next) (.pause ms next')
  | crash : Twin L .crash .crash

variable {p p' : Prog A R α}

theorem Twin.bind {f f' : α → Prog A R γ} (hp : p.Twin L p') (hf : ∀ a, (f a).Twin L (f' a)) :
    (p.bind f).Twin L (p'.bind f') := by
  induction hp with
  | ret a => exact hf a
  | act head _ ih => exact .act head ih
  | pause _ ih => exact .pause ih
  | crash => exact .crash

/-- A program whose acts all count is its own twin. -/
theorem twin_of_all (hp : p.All L.Counts) : p.Twin L p := by
  induction p with
  | ret a => exact .ret a
  | act a next ih =>
      refine .act hp.1.act fun reply reply' h => ?_
      obtain rfl := hp.1.reply reply reply' h
      exact ih reply (hp.2 reply)
  | pause ms next ih => exact .pause (ih hp)
  | crash => exact .crash

end Prog

/-! ## Scripts -/

namespace Script

inductive Twin (L : Likeness A R) : Script A R β → Script A R β → Prop
  | ret (r : Except FlowError β) : Twin L (.ret r) (.ret r)
  | act {a a' : A} {next : R a → Script A R β} {next' : R a' → Script A R β} (head : L.act a a')
      (tail : ∀ reply reply', L.exchange ⟨a, reply⟩ ⟨a', reply'⟩ →
        Twin L (next reply) (next' reply')) : Twin L (.act a next) (.act a' next')
  | pause {ms : Nat} {next next' : Script A R β} (tail : Twin L next next') :
      Twin L (.pause ms next) (.pause ms next')
  | crash : Twin L .crash .crash
  | fork {branches branches' : List (Script A R β)}
      {next next' : List (BranchOutcome β) → Script A R β}
      (length : branches.length = branches'.length)
      (inner : ∀ i (h : i < branches.length) (h' : i < branches'.length),
        Twin L (branches.get ⟨i, h⟩) (branches'.get ⟨i, h'⟩))
      (tail : ∀ outcomes, Twin L (next outcomes) (next' outcomes)) :
      Twin L (.fork branches next) (.fork branches' next')

theorem twin_fork {branches branches' : List (Script A R β)}
    {next next' : List (BranchOutcome β) → Script A R β}
    (hbranches : List.Forall₂ (Twin L) branches branches')
    (tail : ∀ outcomes, (next outcomes).Twin L (next' outcomes)) :
    (fork branches next).Twin L (fork branches' next') := by
  obtain ⟨length, inner⟩ := List.forall₂_iff_get.mp hbranches
  exact .fork length inner tail

theorem Twin.andThen {s s' : Script A R β} {k k' : Except FlowError β → Script A R β}
    (hs : s.Twin L s') (hk : ∀ r, (k r).Twin L (k' r)) :
    (s.andThen k).Twin L (s'.andThen k') := by
  induction hs with
  | ret r => exact hk r
  | act head _ ih => exact .act head ih
  | pause _ ih => exact .pause ih
  | crash => exact .crash
  | fork length inner _ _ ih => exact .fork length inner ih

/-- A script whose acts all count is its own twin. -/
theorem twin_of_all {s : Script A R β} (hs : s.All L.Counts) : s.Twin L s := by
  induction hs with
  | ret r => exact .ret r
  | act head _ ih =>
      refine .act head.act fun reply reply' h => ?_
      obtain rfl := head.reply reply reply' h
      exact ih reply
  | pause _ ih => exact .pause ih
  | crash => exact .crash
  | fork _ _ ihs ih => exact twin_fork (List.forall₂_same.mpr ihs) ih

theorem twin_andThen_prog {p p' : Prog A R α} {k k' : α → Script A R β} (hp : p.Twin L p')
    (hk : ∀ a, (k a).Twin L (k' a)) : (p.andThen k).Twin L (p'.andThen k') := by
  induction hp with
  | ret a => exact hk a
  | act head _ ih => exact .act head ih
  | pause _ ih => exact .pause ih
  | crash => exact .crash

end Script

/-! ## Fans -/

section Lists

variable {X Y X' Y' : Type} {Q : X → Y → Prop} {Q' : X' → Y' → Prop} {xs : List X} {ys : List Y}

theorem optionRel_map {x : Option X} {y : Option Y} (h : Option.Rel Q x y) {f : X → X'}
    {g : Y → Y'} (hf : ∀ a b, Q a b → Q' (f a) (g b)) : Option.Rel Q' (x.map f) (y.map g) := by
  cases h with
  | none => exact .none
  | some hab => exact .some (hf _ _ hab)

theorem optionRel_imp {P : X → Y → Prop} {x : Option X} {y : Option Y} (h : Option.Rel Q x y)
    (hQP : ∀ a b, Q a b → P a b) : Option.Rel P x y := by
  cases h with
  | none => exact .none
  | some hab => exact .some (hQP _ _ hab)

theorem optionRel_bind {x : Option X} {y : Option Y} (h : Option.Rel Q x y)
    {f : X → Option X'} {g : Y → Option Y'}
    (hf : ∀ a b, Q a b → Option.Rel Q' (f a) (g b)) : Option.Rel Q' (x.bind f) (y.bind g) := by
  cases h with
  | none => exact .none
  | some hab => exact hf _ _ hab

theorem forall₂_getElem? (h : List.Forall₂ Q xs ys) (i : Nat) : Option.Rel Q xs[i]? ys[i]? := by
  induction h generalizing i with
  | nil => exact .none
  | cons hxy _ ih =>
      cases i with
      | zero => exact .some hxy
      | succ i => simpa using ih i

theorem forall₂_set (h : List.Forall₂ Q xs ys) (i : Nat) {x : X} {y : Y} (hxy : Q x y) :
    List.Forall₂ Q (xs.set i x) (ys.set i y) := by
  induction h generalizing i with
  | nil => exact .nil
  | cons head tail ih =>
      cases i with
      | zero => exact .cons hxy tail
      | succ i => exact .cons head (ih i)

end Lists

section Fans

variable {φ φ' σ σ' : Type} {P : φ → φ' → Prop} {S : σ → σ' → Prop}

/-- Branches that have come equally far. -/
inductive Branch.Rel (P : φ → φ' → Prop) (S : σ → σ' → Prop) :
    Branch φ σ β → Branch φ' σ' β → Prop
  | waiting {s : σ} {s' : σ'} (h : S s s') : Rel P S (.waiting s) (.waiting s')
  | active {p : φ} {p' : φ'} (h : P p p') : Rel P S (.active p) (.active p')
  | ended (e : Ending β) : Rel P S (.ended e) (.ended e)
  | joined (o : BranchOutcome β) : Rel P S (.joined o) (.joined o)

namespace Branch.Rel

variable {b : Branch φ σ β} {b' : Branch φ' σ' β}

theorem isActive (h : Branch.Rel P S b b') : b'.isActive = b.isActive := by
  cases h <;> rfl

theorem isWaiting (h : Branch.Rel P S b b') : b'.isWaiting = b.isWaiting := by
  cases h <;> rfl

theorem isEnded (h : Branch.Rel P S b b') : b'.isEnded = b.isEnded := by
  cases h <;> rfl

theorem isUnfinished (h : Branch.Rel P S b b') : b'.isUnfinished = b.isUnfinished := by
  cases h <;> rfl

theorem outcome? (h : Branch.Rel P S b b') : b'.outcome? = b.outcome? := by
  cases h <;> rfl

theorem cancel (h : Branch.Rel P S b b') : Branch.Rel P S b.cancel b'.cancel := by
  cases h with
  | waiting => exact .joined _
  | active => exact .joined _
  | ended e => exact .ended e
  | joined o => exact .joined o

end Branch.Rel

namespace Fan

/-- Fans whose branches have come equally far. -/
structure Rel (P : φ → φ' → Prop) (S : σ → σ' → Prop) (f : Fan φ σ β) (f' : Fan φ' σ' β) :
    Prop where
  failed : f'.failed = f.failed
  branches : List.Forall₂ (Branch.Rel P S) f.branches f'.branches

variable {f : Fan φ σ β} {f' : Fan φ' σ' β}

theorem rel_start {scripts : List σ} {scripts' : List σ'} (h : List.Forall₂ S scripts scripts') :
    Rel P S (start scripts : Fan φ σ β) (start scripts') := by
  refine ⟨rfl, ?_⟩
  rw [start, start, List.forall₂_map_left_iff, List.forall₂_map_right_iff]
  exact h.imp fun _ _ => .waiting

theorem Rel.any (h : Rel P S f f') {q : Branch φ σ β → Bool} {q' : Branch φ' σ' β → Bool}
    (hq : ∀ b b', Branch.Rel P S b b' → q' b' = q b) (i : Nat) :
    f'.branches[i]?.any q' = f.branches[i]?.any q := by
  have hi := forall₂_getElem? h.branches i
  generalize f.branches[i]? = b, f'.branches[i]? = b' at hi
  cases hi with
  | none => rfl
  | some hb => exact hq _ _ hb

theorem Rel.toJoin? (h : Rel P S f f') : f'.toJoin? = f.toJoin? := by
  obtain ⟨-, hbranches⟩ := h
  rw [Fan.toJoin?, Fan.toJoin?]
  generalize f.branches = bs, f'.branches = bs' at hbranches
  induction hbranches with
  | nil => rfl
  | cons head _ ih => rw [List.findIdx?_cons, List.findIdx?_cons, ih, head.isEnded]

theorem Rel.inUse (h : Rel P S f f') : f'.inUse = f.inUse := by
  obtain ⟨-, hbranches⟩ := h
  rw [Fan.inUse, Fan.inUse]
  generalize f.branches = bs, f'.branches = bs' at hbranches
  induction hbranches with
  | nil => rfl
  | cons head _ ih => rw [List.countP_cons, List.countP_cons, ih, head.isActive]

theorem Rel.hasPermit (h : Rel P S f f') (limit : Option Nat) :
    f'.hasPermit limit = f.hasPermit limit := by
  cases limit with
  | none => rfl
  | some n => rw [Fan.hasPermit, Fan.hasPermit, h.inUse]

theorem Rel.dispatch? (h : Rel P S f f') (limit : Option Nat) {run : σ → φ} {run' : σ' → φ'}
    (hrun : ∀ s s', S s s' → P (run s) (run' s')) (i : Nat) :
    Option.Rel (Rel P S) (f.dispatch? limit run i) (f'.dispatch? limit run' i) := by
  rw [Fan.dispatch?, Fan.dispatch?, h.hasPermit limit, h.failed]
  have hi := forall₂_getElem? h.branches i
  generalize f.branches[i]? = b, f'.branches[i]? = b' at hi
  cases hi with
  | none => exact .none
  | some hb =>
      cases hb with
      | waiting hs =>
          dsimp only
          split
          · refine .some ⟨rfl, forall₂_set h.branches i ?_⟩
            split
            · exact .ended _
            · exact .active (hrun _ _ hs)
          · exact .none
      | active | ended | joined => exact .none

theorem Rel.finish? (h : Rel P S f f') {ending? : φ → Option (Ending β)}
    {ending?' : φ' → Option (Ending β)} (hend : ∀ p p', P p p' → ending?' p' = ending? p)
    (i : Nat) : Option.Rel (Rel P S) (f.finish? ending? i) (f'.finish? ending?' i) := by
  rw [Fan.finish?, Fan.finish?]
  have hi := forall₂_getElem? h.branches i
  generalize f.branches[i]? = b, f'.branches[i]? = b' at hi
  cases hi with
  | none => exact .none
  | some hb =>
      cases hb with
      | @active p p' hp =>
          dsimp only
          rw [hend p p' hp]
          cases ending? p with
          | none => exact .none
          | some e => exact .some ⟨by rw [h.failed], forall₂_set h.branches i (.ended e)⟩
      | waiting | ended | joined => exact .none

theorem Rel.join? (h : Rel P S f f') (policy : FailurePolicy) (i : Nat) :
    Option.Rel (Rel P S) (f.join? policy i) (f'.join? policy i) := by
  rw [Fan.join?, Fan.join?]
  have hi := forall₂_getElem? h.branches i
  generalize f.branches[i]? = b, f'.branches[i]? = b' at hi
  cases hi with
  | none => exact .none
  | some hb =>
      cases hb with
      | ended e =>
          have hset := forall₂_set h.branches i (Branch.Rel.joined (P := P) (S := S) e.outcome)
          refine .some ⟨by rw [h.failed], ?_⟩
          dsimp only
          split
          · rw [List.forall₂_map_left_iff, List.forall₂_map_right_iff]
            exact hset.imp fun _ _ => Branch.Rel.cancel
          · exact hset
      | waiting | active | joined => exact .none

theorem Rel.outcomes? (h : Rel P S f f') : f'.outcomes? = f.outcomes? := by
  obtain ⟨-, hbranches⟩ := h
  rw [Fan.outcomes?, Fan.outcomes?]
  generalize f.branches = bs, f'.branches = bs' at hbranches
  induction hbranches with
  | nil => rfl
  | cons head _ ih => rw [List.mapM_cons, List.mapM_cons, ih, head.outcome?]

end Fan

end Fans

/-! ## Processes -/

namespace Process

inductive Twin (L : Likeness A R) : Process A R β → Process A R β → Prop
  | line {s s' : Script A R β} (h : s.Twin L s') : Twin L (.line s) (.line s')
  | fan {f f' : Fan (Process A R β) (Script A R β) β}
      {next next' : List (BranchOutcome β) → Script A R β} (failed : f'.failed = f.failed)
      (branches : List.Forall₂ (Branch.Rel (Twin L) (Script.Twin L)) f.branches f'.branches)
      (tail : ∀ outcomes, (next outcomes).Twin L (next' outcomes)) :
      Twin L (.fan f next) (.fan f' next')

variable {p p' : Process A R β} {f f' : Fan (Process A R β) (Script A R β) β}
  {next next' : List (BranchOutcome β) → Script A R β}

theorem twin_fan_iff : (fan f next).Twin L (fan f' next') ↔
    Fan.Rel (Twin L) (Script.Twin L) f f' ∧
      ∀ outcomes, (next outcomes).Twin L (next' outcomes) := by
  constructor
  · rintro (_ | ⟨failed, branches, tail⟩)
    exact ⟨⟨failed, branches⟩, tail⟩
  · rintro ⟨⟨failed, branches⟩, tail⟩
    exact .fan failed branches tail

/-- Twins have twin processes at every path. -/
theorem Twin.at? (h : p.Twin L p') (path : List Nat) :
    Option.Rel (Twin L) (p.at? path) (p'.at? path) := by
  induction path generalizing p p' with
  | nil => exact .some h
  | cons i path ih =>
      cases h with
      | line hs => exact .none
      | @fan f f' next next' failed branches tail =>
          have hi := forall₂_getElem? branches i
          rw [Process.at?, Process.at?]
          generalize f.branches[i]? = b, f'.branches[i]? = b' at hi
          cases hi with
          | none => exact .none
          | some hb =>
              cases hb with
              | active hq => exact ih hq
              | waiting | ended | joined => exact .none

theorem Twin.ending? (h : p.Twin L p') : p'.ending? = p.ending? := by
  cases h with
  | line hs => cases hs <;> rfl
  | fan => rfl

section Moves

variable {W : Type} {perform : (a : A) → W → R a × W} {S : W → W → Prop}
  {config : FanoutConfig} {m : Move} {w w' : W}

/-- What twin processes can come to by one move. -/
abbrev TwinWith (L : Likeness A R) (S : W → W → Prop) :
    Process A R β × W → Process A R β × W → Prop :=
  fun x x' => x.1.Twin L x'.1 ∧ S x.2 x'.2

theorem twinWith_map {s s' : Option (Fan (Process A R β) (Script A R β) β)}
    (hs : Option.Rel (Fan.Rel (Twin L) (Script.Twin L)) s s')
    (hnext : ∀ outcomes, (next outcomes).Twin L (next' outcomes)) (hw : S w w') :
    Option.Rel (TwinWith L S) (s.map (fan · next, w)) (s'.map (fan · next', w')) :=
  optionRel_map hs fun _ _ h => ⟨twin_fan_iff.mpr ⟨h, hnext⟩, hw⟩

theorem step?_twin (hL : L.Performs perform S) (hp : p.Twin L p') (hw : S w w') :
    Option.Rel (TwinWith L S) (step? config perform m p w) (step? config perform m p' w') := by
  cases p with
  | line s =>
      obtain ⟨hs⟩ := hp
      cases hs with
      | act head tail =>
          cases m with
          | act =>
              obtain ⟨hreply, hnext⟩ := hL _ _ w w' head hw
              exact .some ⟨.line (tail _ _ hreply), hnext⟩
          | _ => exact .none
      | pause tail =>
          cases m with
          | act => exact .some ⟨.line tail, hw⟩
          | _ => exact .none
      | fork length inner tail =>
          cases m with
          | fork =>
              refine .some ⟨twin_fan_iff.mpr ⟨Fan.rel_start ?_, tail⟩, hw⟩
              exact List.forall₂_iff_get.mpr ⟨length, inner⟩
          | _ => exact .none
      | ret | crash => cases m <;> exact .none
  | fan f next =>
      cases p' with
      | line s => cases hp
      | fan f' next' =>
          obtain ⟨hfan, hnext⟩ := twin_fan_iff.mp hp
          cases m with
          | dispatch i => exact twinWith_map (hfan.dispatch? _ (fun _ _ => .line) i) hnext hw
          | finish i => exact twinWith_map (hfan.finish? (fun _ _ => Twin.ending?) i) hnext hw
          | join i => exact twinWith_map (hfan.join? _ i) hnext hw
          | collect =>
              dsimp only [step?]
              rw [hfan.outcomes?]
              cases f.outcomes? with
              | none => exact .none
              | some outcomes => exact .some ⟨.line (hnext outcomes), hw⟩
          | act | fork => exact .none

/-- A move that one of two twins can make is possible for the other one, and
they stay twins. -/
theorem move?_twin (hL : L.Performs perform S) (hp : p.Twin L p') (hw : S w w')
    (path : List Nat) :
    Option.Rel (TwinWith L S) (p.move? config perform path m w)
      (p'.move? config perform path m w') := by
  induction path generalizing p p' with
  | nil => exact step?_twin hL hp hw
  | cons i path ih =>
      cases hp with
      | line hs => exact .none
      | @fan f f' next next' failed branches tail =>
          have hi := forall₂_getElem? branches i
          rw [move?, move?, changeAt?, changeAt?]
          generalize f.branches[i]? = b, f'.branches[i]? = b' at hi
          cases hi with
          | none => exact .none
          | some hb =>
              cases hb with
              | @active q q' hq =>
                  refine optionRel_map (ih hq) fun x x' h => ⟨?_, h.2⟩
                  exact .fan failed (forall₂_set branches i (.active h.1)) tail
              | waiting | ended | joined => exact .none

end Moves

end Process

end Ensemble
