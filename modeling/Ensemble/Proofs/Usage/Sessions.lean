import Ensemble.Proofs.Table
import Ensemble.Proofs.Time.Order
import Ensemble.Proofs.Usage.Tokens
import Ensemble.Store.Memory
import Mathlib.Data.List.TakeWhile

/-!
# Sessions under any changes

The branches of a plan share one session, and the order in which their
changes come is nobody's choice. A session is changed by what bears its id
and by nothing else (`Store.session?_after`), it starts with the first usage
of its id, and from then on it is told by all that it has taken
(`Session.Reports`): sums and a maximum, which no order can change.

Finishing does not start a session, so what has been taken begins with a
usage (`SessionChange.taken`).
-/

namespace Ensemble

/-- A change of the sessions. -/
inductive SessionChange
  | record (usage : SessionUsage)
  | finish (id : String) (time : Instant)
deriving DecidableEq, Repr

namespace SessionChange

def session : SessionChange → String
  | record usage => usage.session
  | finish id _ => id

def time : SessionChange → Instant
  | record usage => usage.time
  | finish _ time => time

def delta? : SessionChange → Option Tokens
  | record usage => some usage.delta
  | finish .. => none

def finished? : SessionChange → Option Instant
  | record _ => none
  | finish _ time => some time

def perform : SessionChange → Store → Store
  | record usage, s => (s.recordUsage usage).2
  | finish id time, s => (s.finalize id time).2

/-- What becomes of the session that is changed, if there is one. -/
def change? : SessionChange → Option Session → Option Session
  | record usage, old =>
    some ((old.getD (.start usage.session usage.agent usage.time)).apply usage.delta usage.time)
  | finish _ time, old => old.map fun session => session.finalize time

def changeAll? (changes : List SessionChange) (old : Option Session) : Option Session :=
  changes.foldl (fun old c => c.change? old) old

/-- The changes that a session has taken: the first one of them has made it. -/
def taken (id : String) (changes : List SessionChange) : List SessionChange :=
  (changes.filter fun c => c.session = id).dropWhile fun c => c.delta?.isNone

/-- The usages that have been recorded for a session. -/
def deltas (id : String) (changes : List SessionChange) : List Tokens :=
  (changes.filter fun c => c.session = id).filterMap delta?

end SessionChange

open SessionChange

/-! ## One session -/

namespace Session

/-- A session as it is after `first` has made it and `rest` has changed it. -/
structure Reports (s : Session) (first : SessionUsage) (rest : List SessionChange) : Prop where
  id : s.id = first.session
  agent : s.agent = first.agent
  usage : s.usage = Tokens.sum (first.delta :: rest.filterMap delta?)
  createdAt : s.createdAt = first.time
  updatedAt : IsGreatest {t | t ∈ first.time :: rest.map time} s.updatedAt
  finalizedAt : s.finalizedAt = (rest.filterMap finished?).getLast?

variable {s s' : Session} {first : SessionUsage} {rest : List SessionChange}

theorem Reports.eq (h : s.Reports first rest) (h' : s'.Reports first rest) : s = s' := by
  have hupdated : s.updatedAt = s'.updatedAt := h.updatedAt.unique h'.updatedAt
  obtain ⟨id, agent, usage, createdAt, updatedAt, finalizedAt⟩ := s
  exact (Session.mk.injEq ..).mpr ⟨h.id.trans h'.id.symm, h.agent.trans h'.agent.symm,
    h.usage.trans h'.usage.symm, h.createdAt.trans h'.createdAt.symm, hupdated,
    h.finalizedAt.trans h'.finalizedAt.symm⟩

theorem reports_start (u : SessionUsage) :
    ((start u.session u.agent u.time).apply u.delta u.time).Reports u [] where
  id := rfl
  agent := rfl
  usage := rfl
  createdAt := rfl
  updatedAt := by
    have hself : u.time.latest u.time = u.time := by rw [Instant.latest_eq_max, max_self]
    change IsGreatest _ (u.time.latest u.time)
    rw [hself]
    exact ⟨List.mem_singleton_self _, fun t ht => (List.mem_singleton.mp ht).le⟩
  finalizedAt := rfl

theorem Reports.change (h : s.Reports first rest) (c : SessionChange) :
    ∃ s', c.change? (some s) = some s' ∧ s'.Reports first (rest ++ [c]) := by
  have hupdated := Instant.isGreatest_concat h.updatedAt c.time
  cases c with
  | record u =>
      refine ⟨_, rfl, h.id, h.agent, ?_, h.createdAt, ?_, ?_⟩
      · change s.usage + u.delta = _
        rw [h.usage, List.filterMap_append, ← List.cons_append, Tokens.sum_append]
        exact congrArg _ (Tokens.sum_singleton u.delta).symm
      · rwa [List.map_append, ← List.cons_append]
      · rw [List.filterMap_append]
        exact h.finalizedAt.trans (congrArg _ (List.append_nil _).symm)
  | finish id time =>
      refine ⟨_, rfl, h.id, h.agent, ?_, h.createdAt, ?_, ?_⟩
      · rw [List.filterMap_append]
        exact h.usage.trans (congrArg (fun xs => Tokens.sum (first.delta :: xs))
          (List.append_nil _).symm)
      · rwa [List.map_append, ← List.cons_append]
      · rw [List.filterMap_append]
        exact List.getLast?_concat.symm

theorem Reports.changes (h : s.Reports first rest) (changes : List SessionChange) :
    ∃ s', changeAll? changes (some s) = some s' ∧
      s'.Reports first (rest ++ changes) := by
  induction changes generalizing s rest with
  | nil => exact ⟨s, rfl, by rwa [List.append_nil]⟩
  | cons c changes ih =>
      obtain ⟨s₁, hs₁, hreports₁⟩ := h.change c
      obtain ⟨s', hs', hreports⟩ := ih hreports₁
      refine ⟨s', ?_, ?_⟩
      · rw [changeAll?, List.foldl_cons, hs₁, ← changeAll?, hs']
      · rwa [List.append_assoc] at hreports

/-- What can become of a session: its counts do not decrease, and it is still the same one. -/
structure Grows (s s' : Session) : Prop where
  id : s'.id = s.id
  agent : s'.agent = s.agent
  createdAt : s'.createdAt = s.createdAt
  prompt : s.usage.prompt ≤ s'.usage.prompt
  completion : s.usage.completion ≤ s'.usage.completion
  updatedAt : s.updatedAt ≤ s'.updatedAt

theorem grows_refl (s : Session) : s.Grows s :=
  ⟨rfl, rfl, rfl, UInt64.le_refl _, UInt64.le_refl _, le_refl _⟩

theorem Grows.trans {s'' : Session} (h : s.Grows s') (h' : s'.Grows s'') : s.Grows s'' :=
  ⟨h'.id.trans h.id, h'.agent.trans h.agent, h'.createdAt.trans h.createdAt,
    UInt64.le_trans h.prompt h'.prompt, UInt64.le_trans h.completion h'.completion,
    le_trans h.updatedAt h'.updatedAt⟩

theorem grows_change (s : Session) (c : SessionChange) :
    ∃ s', c.change? (some s) = some s' ∧ s.Grows s' := by
  have hlatest : s.updatedAt ≤ s.updatedAt.latest c.time :=
    Instant.latest_eq_max .. ▸ le_max_left ..
  cases c with
  | record u => exact ⟨_, rfl, rfl, rfl, rfl, le_saturatingAdd .., le_saturatingAdd .., hlatest⟩
  | finish id time => exact ⟨_, rfl, rfl, rfl, rfl, UInt64.le_refl _, UInt64.le_refl _, hlatest⟩

theorem grows_changes (s : Session) (changes : List SessionChange) :
    ∃ s', changeAll? changes (some s) = some s' ∧ s.Grows s' := by
  induction changes generalizing s with
  | nil => exact ⟨s, rfl, s.grows_refl⟩
  | cons c changes ih =>
      obtain ⟨s₁, hs₁, hgrows₁⟩ := s.grows_change c
      obtain ⟨s', hs', hgrows⟩ := ih s₁
      exact ⟨s', by rw [changeAll?, List.foldl_cons, hs₁, ← changeAll?, hs'], hgrows₁.trans hgrows⟩

end Session

/-! ## All sessions -/

namespace Store

/-- The store after some changes. -/
def after (changes : List SessionChange) (s : Store) : Store :=
  changes.foldl (fun s c => c.perform s) s

theorem session?_recordUsage (u : SessionUsage) (s : Store) (id : String) :
    (s.recordUsage u).2.session? id
      = if id = u.session then some (s.recordUsage u).1 else s.session? id :=
  Table.lookup_insert ..

theorem session?_finalize (name : String) (time : Instant) (s : Store) (id : String) :
    (s.finalize name time).2.session? id
      = if id = name then (s.session? name).map fun session => session.finalize time
        else s.session? id := by
  rw [finalize]
  split
  · rename_i hnone
    by_cases hid : id = name
    · rw [if_pos hid, hid, hnone]
      rfl
    · rw [if_neg hid]
  · rename_i old hold
    rw [hold]
    exact Table.lookup_insert ..

/-- A change is one of the session that it names, and of no other one. -/
theorem session?_perform (c : SessionChange) (s : Store) (id : String) :
    (c.perform s).session? id
      = if id = c.session then c.change? (s.session? id) else s.session? id := by
  cases c with
  | record u =>
      refine (session?_recordUsage u s id).trans (if_ctx_congr Iff.rfl (fun hid => ?_) fun _ => rfl)
      rw [hid]
      rfl
  | finish name time =>
      refine (session?_finalize name time s id).trans
        (if_ctx_congr Iff.rfl (fun hid => ?_) fun _ => rfl)
      rw [hid]
      rfl

/-- The changes of other sessions may as well be left out. -/
theorem session?_after (changes : List SessionChange) (s : Store) (id : String) :
    (s.after changes).session? id
      = changeAll? (changes.filter fun c => c.session = id) (s.session? id) := by
  induction changes generalizing s with
  | nil => rfl
  | cons c changes ih =>
      have hstep : s.after (c :: changes) = (c.perform s).after changes := rfl
      rw [hstep, ih, session?_perform]
      by_cases hid : c.session = id
      · rw [if_pos hid.symm, List.filter_cons_of_pos (by simpa using hid)]
        rfl
      · rw [if_neg (Ne.symm hid), List.filter_cons_of_neg (by simpa using hid)]

end Store

/-! ## What a session has taken -/

section Taken

variable {id : String} {changes : List SessionChange}

theorem taken_eq_nil_or (id : String) (changes : List SessionChange) :
    taken id changes = [] ∨ ∃ first rest, taken id changes = record first :: rest := by
  cases htaken : taken id changes with
  | nil => exact .inl rfl
  | cons c rest =>
      have hhead := List.head?_dropWhile_not (fun c : SessionChange => c.delta?.isNone)
        (changes.filter fun c => c.session = id)
      rw [← taken, htaken] at hhead
      cases c with
      | record first => exact .inr ⟨first, rest, rfl⟩
      | finish name time => exact absurd hhead (by simp [delta?])

theorem taken_eq_nil_iff : taken id changes = [] ↔ ∀ u, record u ∈ changes → u.session ≠ id := by
  rw [taken, List.dropWhile_eq_nil_iff]
  simp only [List.mem_filter, decide_eq_true_eq, and_imp]
  constructor
  · intro h u hu hid
    exact absurd (h (record u) hu hid) (by simp [delta?])
  · intro h c hc hid
    cases c with
    | record u => exact absurd hid (h u hc)
    | finish name time => rfl

theorem deltas_eq (id : String) (changes : List SessionChange) :
    deltas id changes = (taken id changes).filterMap delta? := by
  rw [deltas, taken]
  induction changes.filter fun c => c.session = id with
  | nil => rfl
  | cons c rest ih =>
      cases c with
      | record u => rfl
      | finish name time => exact ih

theorem changeAll?_dropWhile (changes : List SessionChange) :
    changeAll? (changes.dropWhile fun c => c.delta?.isNone) none = changeAll? changes none := by
  induction changes with
  | nil => rfl
  | cons c rest ih =>
      cases c with
      | record u => rfl
      | finish name time => exact ih

end Taken

namespace Store

variable {id : String} {changes : List SessionChange} {session : Session}

theorem session?_eq_changeAll? (id : String) (changes : List SessionChange) :
    (empty.after changes).session? id
      = changeAll? (taken id changes) none := by
  rw [session?_after, taken, changeAll?_dropWhile]
  rfl

/-- There is a session once it has taken a usage, and it reports all that it has taken. -/
theorem session?_eq_some_iff :
    (empty.after changes).session? id = some session ↔
      ∃ first rest, taken id changes = record first :: rest ∧ session.Reports first rest := by
  rw [session?_eq_changeAll?]
  rcases taken_eq_nil_or id changes with hnil | ⟨first, rest, hcons⟩
  · simp [hnil, changeAll?]
  · obtain ⟨s, hs, hreports⟩ := (Session.reports_start first).changes rest
    have hrun : changeAll? (taken id changes) none = some s := hcons ▸ hs
    rw [hrun, Option.some_inj]
    constructor
    · rintro rfl
      exact ⟨first, rest, hcons, hreports⟩
    · rintro ⟨first', rest', htaken, hreports'⟩
      obtain ⟨hfirst, rfl⟩ := List.cons.inj (hcons.symm.trans htaken)
      obtain rfl := SessionChange.record.inj hfirst
      exact hreports.eq hreports'

theorem session?_eq_none_iff :
    (empty.after changes).session? id = none ↔ ∀ u, record u ∈ changes → u.session ≠ id := by
  rw [← taken_eq_nil_iff, session?_eq_changeAll?]
  rcases taken_eq_nil_or id changes with hnil | ⟨first, rest, hcons⟩
  · simp [hnil, changeAll?]
  · obtain ⟨s, hs, -⟩ := (Session.reports_start first).changes rest
    have hrun : changeAll? (taken id changes) none = some s := hcons ▸ hs
    rw [hrun, hcons]
    exact iff_of_false (Option.some_ne_none s) (List.cons_ne_nil _ _)

/-- The tokens of a session are those that have been recorded for it. -/
theorem usage_eq_sum (h : (empty.after changes).session? id = some session) :
    session.usage = Tokens.sum (deltas id changes) := by
  obtain ⟨first, rest, htaken, hreports⟩ := session?_eq_some_iff.mp h
  rw [hreports.usage, deltas_eq, htaken]
  rfl

theorem session?_append_grows (h : (empty.after changes).session? id = some session)
    (more : List SessionChange) :
    ∃ later, (empty.after (changes ++ more)).session? id = some later ∧ session.Grows later := by
  have hafter : empty.after (changes ++ more) = (empty.after changes).after more :=
    List.foldl_append
  rw [hafter, session?_after, h]
  exact session.grows_changes _

end Store

/-! ## Usages in another order -/

/-- What does not depend on the order of usages. -/
def Session.tally (s : Session) : Tokens × Instant := (s.usage, s.updatedAt)

def SessionChange.tally? : SessionChange → Option (Tokens × Instant) → Option (Tokens × Instant)
  | record u, old =>
    let (usage, time) := old.getD (.zero, u.time)
    some (usage + u.delta, time.latest u.time)
  | finish _ time, old => old.map fun (usage, updatedAt) => (usage, updatedAt.latest time)

theorem tally_change (c : SessionChange) (old : Option Session) :
    (c.change? old).map Session.tally = c.tally? (old.map Session.tally) := by
  cases c <;> cases old <;> rfl

theorem tally?_swap (u v : SessionUsage) (old : Option (Tokens × Instant)) :
    (record v).tally? ((record u).tally? old) = (record u).tally? ((record v).tally? old) := by
  cases old with
  | none =>
      simp [tally?, Instant.latest_eq_max, Tokens.zero_add, Tokens.add_comm, max_comm]
  | some old =>
      have hadd : old.1 + u.delta + v.delta = old.1 + v.delta + u.delta := by
        rw [Tokens.add_assoc, Tokens.add_comm u.delta, ← Tokens.add_assoc]
      simp [tally?, Instant.latest_eq_max, hadd, max_right_comm]

theorem Store.tally_perm {usages usages' : List SessionUsage} (h : usages.Perm usages')
    (before behind : List SessionChange) (s : Store) (id : String) :
    ((s.after (before ++ usages.map record ++ behind)).session? id).map Session.tally
      = ((s.after (before ++ usages'.map record ++ behind)).session? id).map Session.tally := by
  have hfold (changes : List SessionChange) (old : Option Session) :
      (changeAll? changes old).map Session.tally
        = changes.foldl (fun old c => c.tally? old) (old.map Session.tally) :=
    (List.foldl_hom (Option.map Session.tally) fun old c => (tally_change c old).symm).symm
  have hperm : ((usages.map record).filter fun c => c.session = id).Perm
      ((usages'.map record).filter fun c => c.session = id) := (h.map record).filter _
  have hrecord {c : SessionChange} (hc : c ∈ (usages.map record).filter fun c => c.session = id) :
      ∃ u, c = record u :=
    (List.mem_map.mp (List.mem_filter.mp hc).1).imp fun u hu => hu.2.symm
  simp only [session?_after, List.filter_append, List.foldl_append, hfold]
  rw [hperm.foldl_eq']
  intro c hc d hd old
  obtain ⟨u, rfl⟩ := hrecord hc
  obtain ⟨v, rfl⟩ := hrecord hd
  exact tally?_swap u v old

/-- **Sessions add up, in any order.** There is a session once a usage has been
recorded for its id, and it reports that first usage and all later changes of
its id. Its counts are the sums of the recorded ones as far as a count goes,
they never decrease, and changes of other ids do not matter, nor does it to
finish a session that is not there. Usages that are recorded in another order
leave the same counts and the same time of the last change. -/
theorem Store.sessions_additive (changes : List SessionChange) (id : String) :
    (∀ session, (empty.after changes).session? id = some session ↔
      ∃ first rest, taken id changes = record first :: rest ∧ session.Reports first rest) ∧
    ((empty.after changes).session? id = none ↔ ∀ u, record u ∈ changes → u.session ≠ id) ∧
    (∀ session, (empty.after changes).session? id = some session →
      session.usage = Tokens.sum (deltas id changes) ∧
      session.usage.prompt.toNat
        = min ((deltas id changes).map fun x => x.prompt.toNat).sum (UInt64.size - 1) ∧
      session.usage.completion.toNat
        = min ((deltas id changes).map fun x => x.completion.toNat).sum (UInt64.size - 1) ∧
      ∀ more, ∃ later, (empty.after (changes ++ more)).session? id = some later ∧
        session.Grows later) ∧
    (empty.after changes).session? id
      = (empty.after (changes.filter fun c => c.session = id)).session? id ∧
    ((empty.after changes).session? id = none →
      ∀ time, (empty.after changes).finalize id time = (none, empty.after changes)) ∧
    ∀ before (usages usages' : List SessionUsage) behind,
      changes = before ++ usages.map record ++ behind → usages.Perm usages' →
        ((empty.after changes).session? id).map Session.tally
          = ((empty.after (before ++ usages'.map record ++ behind)).session? id).map
              Session.tally := by
  refine ⟨fun session => session?_eq_some_iff, session?_eq_none_iff, ?_, ?_, ?_, ?_⟩
  · intro session h
    have hsum := usage_eq_sum h
    obtain ⟨hprompt, hcompletion⟩ := Tokens.toNat_sum (deltas id changes)
    exact ⟨hsum, hsum ▸ hprompt, hsum ▸ hcompletion, session?_append_grows h⟩
  · rw [session?_after, session?_after, List.filter_filter]
    simp
  · intro h time
    rw [finalize, h]
  · rintro before usages usages' behind rfl hperm
    exact tally_perm hperm before behind empty id

/-- A second of the last minute of a day in May. -/
def tick (second : Nat) : Instant :=
  { year := 2024, month := 5, day := 31, hour := 23, minute := 59, second, nano := 0 }

/-- Usages of two sessions, where the clock goes back, stands still, and a count is full. -/
def overlapping : List SessionUsage :=
  [{ session := "a", agent := "writer", delta := ⟨3, 7⟩, time := tick 5 },
    { session := "b", agent := "critic", delta := ⟨2, 2⟩, time := tick 9 },
    { session := "a", agent := "critic", delta := ⟨18446744073709551615, 1⟩, time := tick 3 },
    { session := "a", agent := "writer", delta := ⟨1, 1⟩, time := tick 5 }]

/-- What comes too early does not finish the session, and what comes late does not set it back. -/
theorem Store.sessions_additive_overlapping :
    let changes := [finish "a" (tick 8)] ++ overlapping.map record ++ [finish "a" (tick 4)]
    let session : Session :=
      { id := "a", agent := "writer", usage := ⟨18446744073709551615, 9⟩, createdAt := tick 5
        updatedAt := tick 5, finalizedAt := some (tick 4) }
    (empty.after changes).session? "a" = some session ∧
      (empty.after changes).finalize "c" (tick 6) = (none, empty.after changes) ∧
      ((empty.after ([finish "a" (tick 8)] ++ overlapping.reverse.map record
        ++ [finish "a" (tick 4)])).session? "a").map Session.tally = some session.tally := by
  intro changes session
  have hsession : (empty.after changes).session? "a" = some session := by decide
  obtain ⟨-, -, -, -, hfinish, -⟩ := sessions_additive changes "c"
  obtain ⟨-, -, -, -, -, hperm⟩ := sessions_additive changes "a"
  refine ⟨hsession, hfinish (by decide) (tick 6), ?_⟩
  rw [← hperm _ _ _ _ rfl overlapping.reverse_perm.symm, hsession]
  rfl

end Ensemble
