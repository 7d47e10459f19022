import Ensemble.Agent.Handle
import Ensemble.Proofs.Plan.Visible
import Ensemble.Proofs.Run.Entries

/-!
# Entries that cover a tree

Entries of a log cover a step if they say that it is left out, if it is a
call and they say what it has come to, or if they can be shared out among
its children so that each child is covered by its share (`Covers`). The
order of the entries does not matter.

`Covers` needs no names. Where the names of the steps differ, a name is
found in the share of one child only, so it can be followed down the tree:
a call either has an entry of its own, and no step on the way to it is left
out, or exactly one of these steps is (`Covers.once`).
-/

namespace Ensemble

open scoped List

/-- The entry of a call that has come to an answer. -/
def Call.entry (c : Call) : Except CallError AgentReply → StepLog
  | .ok _ => { step := c.name, status := .success, error := none }
  | .error e => { step := c.name, status := .failed, error := some e.message }

/-- Whether an entry says that a step of the name is left out. -/
def StepLog.skips (name : String) (e : StepLog) : Bool := e.step == name && e.status == .skipped

theorem Call.entry_status (c : Call) (answer : Except CallError AgentReply) :
    (c.entry answer).status = .success ∨ (c.entry answer).status = .failed := by
  cases answer with
  | ok reply => exact Or.inl rfl
  | error e => exact Or.inr rfl

theorem Call.entry_step (c : Call) (answer : Except CallError AgentReply) :
    (c.entry answer).step = c.name := by
  cases answer <;> rfl

namespace Step

/-- Induction on a step, whatever its kind. -/
theorem children_ind {motive : Step → Prop} (h : ∀ s, (∀ t ∈ s.children, motive t) → motive s)
    (s : Step) : motive s := by
  induction s with
  | call c => exact h (.call c) (by simp [children])
  | sequence name steps ih => exact h (.sequence name steps) ih
  | parallel name steps ih => exact h (.parallel name steps) ih

theorem walk_eq (s : Step) : s.walk = s :: walkAll s.children := by
  cases s <;> rfl

/-- The steps on the way to a place of a tree, from the root to the step there. -/
def lineage : List Nat → Step → List Step
  | [], s => [s]
  | i :: path, s => s :: (s.children[i]?.map (lineage path)).getD []

theorem lineage_cons {parent s : Step} {i : Nat} (hs : parent.children[i]? = some s)
    (path : List Nat) : parent.lineage (i :: path) = parent :: s.lineage path := by
  rw [lineage, hs]
  rfl

theorem mem_walkAll {steps : List Step} {s t : Step} (hs : s ∈ steps) (ht : t ∈ s.walk) :
    t ∈ walkAll steps := by
  rw [walkAll_eq_flatMap]
  exact List.mem_flatMap.mpr ⟨s, hs, ht⟩

/-- All steps on the way to a place are steps of the tree. -/
theorem lineage_subset_walk {path : List Nat} {s t : Step} (hat : s.at? path = some t) :
    s.lineage path ⊆ s.walk := by
  induction path generalizing s with
  | nil =>
      rw [walk_eq]
      exact List.cons_subset_cons s (List.nil_subset _)
  | cons i path ih =>
      obtain ⟨child, hchild, hrest⟩ := Option.bind_eq_some_iff.mp hat
      rw [lineage_cons hchild, walk_eq]
      exact List.cons_subset_cons s fun u hu =>
        mem_walkAll (List.mem_of_getElem? hchild) (ih hrest hu)

theorem mem_lineage {path : List Nat} {s t : Step} (hat : s.at? path = some t) :
    t ∈ s.lineage path := by
  induction path generalizing s with
  | nil =>
      obtain rfl := Option.some.inj hat
      exact List.mem_singleton_self s
  | cons i path ih =>
      obtain ⟨child, hchild, hrest⟩ := Option.bind_eq_some_iff.mp hat
      rw [lineage_cons hchild]
      exact List.mem_cons_of_mem s (ih hrest)

end Step

/-! ## Covers -/

mutual

/-- Some entries cover a step, if `R` says which answers calls have come to. -/
def Covers (R : Call → Except CallError AgentReply → Prop) : Step → List StepLog → Prop
  | .call c, es => es = [.leftOut c.name] ∨ ∃ answer, R c answer ∧ es = [c.entry answer]
  | .sequence name steps, es => es = [.leftOut name] ∨ CoversAll R steps es
  | .parallel name steps, es => es = [.leftOut name] ∨ CoversAll R steps es

/-- Some entries cover steps, each of them by its share. -/
def CoversAll (R : Call → Except CallError AgentReply → Prop) : List Step → List StepLog → Prop
  | [], es => es = []
  | s :: rest, es =>
    ∃ share others, es.Perm (share ++ others) ∧ Covers R s share ∧ CoversAll R rest others

end

variable {R R' : Call → Except CallError AgentReply → Prop} {s : Step} {steps : List Step}
  {es es' : List StepLog}

theorem covers_call {c : Call} {answer : Except CallError AgentReply} (h : R c answer) :
    Covers R (.call c) [c.entry answer] := by
  rw [Covers]
  exact Or.inr ⟨answer, h, rfl⟩

theorem covers_leftOut (R : Call → Except CallError AgentReply → Prop) (s : Step) :
    Covers R s [.leftOut s.name] := by
  cases s <;> exact Or.inl rfl

/-- How a step can be covered. -/
theorem Covers.cases (h : Covers R s es) :
    es = [.leftOut s.name] ∨ (∃ c answer, s = .call c ∧ R c answer ∧ es = [c.entry answer]) ∨
      s.isCall = false ∧ CoversAll R s.children es := by
  cases s with
  | call c =>
      rw [Covers] at h
      exact h.imp_right fun ⟨answer, hanswer, hes⟩ => Or.inl ⟨c, answer, rfl, hanswer, hes⟩
  | sequence name steps =>
      rw [Covers] at h
      exact h.imp_right fun hall => Or.inr ⟨rfl, hall⟩
  | parallel name steps =>
      rw [Covers] at h
      exact h.imp_right fun hall => Or.inr ⟨rfl, hall⟩

theorem covers_children (hnode : s.isCall = false) (h : CoversAll R s.children es) :
    Covers R s es := by
  cases s with
  | call c => cases hnode
  | sequence name steps => exact Or.inr h
  | parallel name steps => exact Or.inr h

theorem CoversAll.perm (h : CoversAll R steps es) (hperm : es'.Perm es) :
    CoversAll R steps es' := by
  cases steps with
  | nil =>
      rw [CoversAll] at h ⊢
      exact List.perm_nil.mp (h ▸ hperm)
  | cons s rest =>
      rw [CoversAll] at h ⊢
      obtain ⟨share, others, hes, hshare, hothers⟩ := h
      exact ⟨share, others, hperm.trans hes, hshare, hothers⟩

theorem Covers.perm (h : Covers R s es) (hperm : es'.Perm es) : Covers R s es' := by
  rcases h.cases with rfl | ⟨c, answer, rfl, hanswer, rfl⟩ | ⟨hnode, hall⟩
  · rw [List.perm_singleton.mp hperm]
    exact covers_leftOut R s
  · rw [List.perm_singleton.mp hperm]
    exact covers_call hanswer
  · exact covers_children hnode (hall.perm hperm)

/-- Steps that are all left out. -/
theorem coversAll_leftOut (R : Call → Except CallError AgentReply → Prop) (steps : List Step) :
    CoversAll R steps ((steps.map Step.name).map StepLog.leftOut) := by
  induction steps with
  | nil =>
      rw [CoversAll]
      rfl
  | cons s rest ih =>
      rw [CoversAll]
      exact ⟨[.leftOut s.name], _, .refl _, covers_leftOut R s, ih⟩

/-- Shares that are given by the numbers of the steps. -/
theorem coversAll_of_shares {share : Nat → List StepLog}
    (h : ∀ (i : Nat) (s : Step), steps[i]? = some s → Covers R s (share i)) :
    CoversAll R steps ((List.range steps.length).flatMap share) := by
  induction steps generalizing share with
  | nil =>
      rw [CoversAll]
      rfl
  | cons s rest ih =>
      rw [CoversAll, List.length_cons, List.range_succ_eq_map, List.flatMap_cons,
        List.flatMap_map]
      exact ⟨share 0, _, .refl _, h 0 s rfl, ih fun i t ht => h (i + 1) t ht⟩

theorem CoversAll.mono_of (h : CoversAll R steps es)
    (hsteps : ∀ s ∈ steps, ∀ es, Covers R s es → Covers R' s es) : CoversAll R' steps es := by
  induction steps generalizing es with
  | nil =>
      rw [CoversAll] at h ⊢
      exact h
  | cons s rest ih =>
      rw [CoversAll] at h ⊢
      obtain ⟨share, others, hperm, hshare, hothers⟩ := h
      exact ⟨share, others, hperm, hsteps s (List.mem_cons_self ..) share hshare,
        ih hothers fun t ht => hsteps t (List.mem_cons_of_mem _ ht)⟩

theorem Covers.mono (hR : ∀ c answer, R c answer → R' c answer) (h : Covers R s es) :
    Covers R' s es := by
  induction s using Step.children_ind generalizing es with
  | h s ih =>
      rcases h.cases with rfl | ⟨c, answer, rfl, hanswer, rfl⟩ | ⟨hnode, hall⟩
      · exact covers_leftOut R' s
      · exact covers_call (hR c answer hanswer)
      · exact covers_children hnode (hall.mono_of fun t ht es => ih t ht)

/-! ## What entries are about -/

/-- An entry says that one of some steps is left out, or what a call among
them has come to. -/
def Concerns (R : Call → Except CallError AgentReply → Prop) (steps : List Step) (e : StepLog) :
    Prop :=
  (∃ s ∈ steps, e = .leftOut s.name) ∨
    ∃ c answer, .call c ∈ steps ∧ R c answer ∧ e = c.entry answer

theorem Concerns.mono {steps' : List Step} {e : StepLog} (h : Concerns R steps e)
    (hsteps : steps ⊆ steps') : Concerns R steps' e := by
  rcases h with ⟨s, hs, rfl⟩ | ⟨c, answer, hc, hanswer, rfl⟩
  · exact Or.inl ⟨s, hsteps hs, rfl⟩
  · exact Or.inr ⟨c, answer, hsteps hc, hanswer, rfl⟩

theorem Concerns.step_mem {e : StepLog} (h : Concerns R steps e) :
    e.step ∈ steps.map Step.name := by
  rcases h with ⟨s, hs, rfl⟩ | ⟨c, answer, hc, -, rfl⟩
  · exact List.mem_map_of_mem hs
  · rw [c.entry_step]
    exact List.mem_map_of_mem (f := Step.name) hc

/-- Entries either are of steps left out, or show how a call has ended. -/
theorem Concerns.status {e : StepLog} (h : Concerns R steps e) : e.status ≠ .running := by
  rcases h with ⟨s, -, rfl⟩ | ⟨c, answer, -, -, rfl⟩
  · simp [StepLog.leftOut]
  · rcases c.entry_status answer with hstatus | hstatus <;> simp [hstatus]

theorem CoversAll.concerns_of (h : CoversAll R steps es)
    (hsteps : ∀ s ∈ steps, ∀ es, Covers R s es → ∀ e ∈ es, Concerns R s.walk e) :
    ∀ e ∈ es, Concerns R (Step.walkAll steps) e := by
  induction steps generalizing es with
  | nil =>
      rw [CoversAll] at h
      simp [h]
  | cons s rest ih =>
      rw [CoversAll] at h
      obtain ⟨share, others, hperm, hshare, hothers⟩ := h
      intro e he
      rw [Step.walkAll]
      rcases List.mem_append.mp (hperm.mem_iff.mp he) with he | he
      · exact (hsteps s (List.mem_cons_self ..) share hshare e he).mono
          (List.subset_append_left ..)
      · exact (ih hothers (fun t ht => hsteps t (List.mem_cons_of_mem _ ht)) e he).mono
          (List.subset_append_right ..)

/-- The entries that cover a step are about the steps of its tree. -/
theorem Covers.concerns (h : Covers R s es) : ∀ e ∈ es, Concerns R s.walk e := by
  induction s using Step.children_ind generalizing es with
  | h s ih =>
      rw [Step.walk_eq]
      rcases h.cases with rfl | ⟨c, answer, rfl, hanswer, rfl⟩ | ⟨hnode, hall⟩
      · simp only [List.mem_singleton, forall_eq]
        exact Or.inl ⟨s, List.mem_cons_self .., rfl⟩
      · simp only [List.mem_singleton, forall_eq]
        exact Or.inr ⟨c, answer, List.mem_cons_self .., hanswer, rfl⟩
      · intro e he
        exact (hall.concerns_of (fun t ht es => ih t ht) e he).mono (List.subset_cons_self ..)

/-! ## Different names -/

/-- Where names differ, those in the share of a child are in no other share. -/
theorem CoversAll.share (h : CoversAll R steps es)
    (hnodup : ((Step.walkAll steps).map Step.name).Nodup) {i : Nat} (hs : steps[i]? = some s) :
    ∃ share others, es.Perm (share ++ others) ∧ Covers R s share ∧
      ∀ e ∈ others, e.step ∉ s.walk.map Step.name := by
  induction steps generalizing es i with
  | nil => cases hs
  | cons t rest ih =>
      rw [CoversAll] at h
      obtain ⟨first, others, hperm, hfirst, hothers⟩ := h
      rw [Step.walkAll, List.map_append] at hnodup
      obtain ⟨-, hrest, hdisjoint⟩ := List.nodup_append'.mp hnodup
      cases i with
      | zero =>
          obtain rfl := Option.some.inj hs
          refine ⟨first, others, hperm, hfirst, fun e he hmem => ?_⟩
          exact hdisjoint hmem
            (hothers.concerns_of (fun t _ es => Covers.concerns) e he).step_mem
      | succ i =>
          obtain ⟨share, between, hsplit, hshare, hbetween⟩ := ih hothers hrest hs
          refine ⟨share, first ++ between, ?_, hshare, fun e he => ?_⟩
          · calc es ~ first ++ others := hperm
              _ ~ first ++ (share ++ between) := hsplit.append_left first
              _ ~ share ++ (first ++ between) := List.perm_append_comm_assoc ..
          · rcases List.mem_append.mp he with he | he
            · intro hmem
              have hbelow : s.walk.map Step.name ⊆ (Step.walkAll rest).map Step.name :=
                List.map_subset _ fun u hu => Step.mem_walkAll (List.mem_of_getElem? hs) hu
              exact hdisjoint (hfirst.concerns e he).step_mem (hbelow hmem)
            · exact hbetween e he

/-- Entries say once what has become of a call, to which the steps `way` lead:
in an entry of its own, or by leaving out exactly one step on that way. -/
inductive CoversOnce (R : Call → Except CallError AgentReply → Prop) (c : Call) (way : List Step)
    (es : List StepLog) : Prop
  | answered (answer : Except CallError AgentReply) (known : R c answer)
      (own : es.filter (fun e => e.step == c.name) = [c.entry answer])
      (none : ∀ s ∈ way, es.countP (StepLog.skips s.name) = 0)
  | leftOut (before : List Step) (s : Step) (after : List Step) (split : way = before ++ s :: after)
      (own : ∀ e ∈ es, e.step = c.name → e.status = .skipped)
      (one : es.countP (StepLog.skips s.name) = 1)
      (none : ∀ t ∈ before ++ after, es.countP (StepLog.skips t.name) = 0)

namespace CoversOnce

variable {c : Call} {way : List Step} {share others : List StepLog}

theorem countP_skips_eq_zero {name : String} (h : ∀ e ∈ es, e.step ≠ name) :
    es.countP (StepLog.skips name) = 0 :=
  List.countP_eq_zero.mpr fun e he => by simp [StepLog.skips, h e he]

/-- One more step on the way that is not left out. -/
theorem cons (h : CoversOnce R c way es) (hs : es.countP (StepLog.skips s.name) = 0) :
    CoversOnce R c (s :: way) es := by
  cases h with
  | answered answer known own none =>
      exact .answered answer known own (List.forall_mem_cons.mpr ⟨hs, none⟩)
  | leftOut before t after split own one none =>
      exact .leftOut (s :: before) t after (congrArg (s :: ·) split) own one
        (List.forall_mem_cons.mpr ⟨hs, none⟩)

/-- Entries of other names add nothing. -/
theorem of_share (h : CoversOnce R c way share) (hperm : es.Perm (share ++ others))
    (hc : ∀ e ∈ others, e.step ≠ c.name)
    (hway : ∀ s ∈ way, ∀ e ∈ others, e.step ≠ s.name) : CoversOnce R c way es := by
  have hcount : ∀ s ∈ way, es.countP (StepLog.skips s.name)
      = share.countP (StepLog.skips s.name) := by
    intro s hs
    rw [hperm.countP_eq, List.countP_append, countP_skips_eq_zero (hway s hs), Nat.add_zero]
  cases h with
  | answered answer known own none =>
      refine .answered answer known ?_ fun s hs => (hcount s hs).trans (none s hs)
      have hothers : others.filter (fun e => e.step == c.name) = [] :=
        List.filter_eq_nil_iff.mpr fun e he => by simp [hc e he]
      have hfilter := hperm.filter fun e => e.step == c.name
      rw [List.filter_append, own, hothers, List.append_nil] at hfilter
      exact List.perm_singleton.mp hfilter
  | leftOut before s after split own one none =>
      have hmem : ∀ t, t = s ∨ t ∈ before ++ after → t ∈ way := by
        intro t ht
        rw [split]
        simp only [List.mem_append, List.mem_cons] at ht ⊢
        tauto
      refine .leftOut before s after split ?_ ((hcount s (hmem s (Or.inl rfl))).trans one)
        fun t ht => (hcount t (hmem t (Or.inr ht))).trans (none t ht)
      intro e he hname
      rcases List.mem_append.mp (hperm.mem_iff.mp he) with he | he
      · exact own e he hname
      · exact absurd hname (hc e he)

end CoversOnce

/-- Where the names of its steps differ, a tree that is covered has each of
its calls covered once. -/
theorem Covers.once (h : Covers R s es) (hnodup : (s.walk.map Step.name).Nodup) {path : List Nat}
    {c : Call} (hat : s.at? path = some (.call c)) : CoversOnce R c (s.lineage path) es := by
  induction path generalizing s es with
  | nil =>
      obtain rfl := Option.some.inj hat
      rw [Covers] at h
      rcases h with rfl | ⟨answer, hanswer, rfl⟩
      · exact .leftOut [] (.call c) [] rfl (by simp [StepLog.leftOut])
          (by simp [StepLog.skips, StepLog.leftOut, Step.name]) (by simp)
      · refine .answered answer hanswer (by simp [c.entry_step]) fun t ht => ?_
        rcases c.entry_status answer with hstatus | hstatus <;> simp [StepLog.skips, hstatus]
  | cons i path ih =>
      obtain ⟨child, hchild, hrest⟩ := Option.bind_eq_some_iff.mp hat
      rw [Step.walk_eq, List.map_cons, List.nodup_cons] at hnodup
      obtain ⟨hown, hbelow⟩ := hnodup
      have hmem := List.mem_of_getElem? hchild
      -- the names on the way are those of the child's tree, and not that of its parent
      have hnames : ∀ t ∈ child.lineage path, t.name ∈ child.walk.map Step.name := fun t ht =>
        List.mem_map_of_mem (Step.lineage_subset_walk hrest ht)
      have hwalk : child.walk.map Step.name ⊆ (Step.walkAll s.children).map Step.name :=
        List.map_subset _ fun u hu => Step.mem_walkAll hmem hu
      have hcall : c.name ∈ child.walk.map Step.name := hnames _ (Step.mem_lineage hrest)
      rw [Step.lineage_cons hchild]
      rcases h.cases with rfl | ⟨c', answer, rfl, -, -⟩ | ⟨-, hall⟩
      · refine .leftOut [] s (child.lineage path) rfl (by simp [StepLog.leftOut])
          (by simp [StepLog.skips, StepLog.leftOut]) fun t ht => ?_
        refine CoversOnce.countP_skips_eq_zero fun e he heq => ?_
        obtain rfl := List.mem_singleton.mp he
        have hsame : s.name = t.name := heq
        exact hown (hsame ▸ hwalk (hnames t ht))
      · cases hchild
      · obtain ⟨share, others, hperm, hshare, hothers⟩ := hall.share hbelow hchild
        have hnodup := (List.nodup_flatMap.mp
          (by rwa [Step.walkAll_eq_flatMap, List.map_flatMap] at hbelow)).1 child hmem
        refine CoversOnce.cons ((ih hshare hnodup hrest).of_share hperm ?_ ?_) ?_
        · exact fun e he heq => hothers e he (heq ▸ hcall)
        · exact fun t ht e he heq => hothers e he (heq ▸ hnames t ht)
        · refine CoversOnce.countP_skips_eq_zero fun e he heq => hown ?_
          exact heq ▸ (hall.concerns_of (fun t _ es => Covers.concerns) e he).step_mem

end Ensemble
