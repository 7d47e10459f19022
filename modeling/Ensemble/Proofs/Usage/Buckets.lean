import Ensemble.Proofs.Time.Order
import Ensemble.Proofs.Usage.Windows
import Mathlib.Data.List.Forall2
import Mathlib.Data.String.Basic

/-!
# Records of hours

The store merges the records of an hour as they come. What it holds of an
hour is told by all records of it, in whatever order they came
(`Stat.Gathers`), but for the order of the reasons. One more record changes
that of its own hour (`mem_insertStat`), and the sum of all by its own count
(`sum_insertStat`), so windows over the merged records are windows over those
that came (`Windows.Exact.kept`).

Merging stays at the largest count where a window has no sum at all. With
sums that are counts nothing is lost: a part that has been cut off would be
larger than the whole.
-/

namespace Ensemble.Usage

/-! ## The order of hours -/

namespace Key

def order (k : Key) : String ×ₗ Int ×ₗ Nat ×ₗ Nat ×ₗ Nat :=
  toLex (k.event, toLex (k.year, toLex (k.month, toLex (k.day, k.hour))))

theorem before_iff {a b : Key} : a.before b = true ↔ a.order < b.order := by
  simp [before, order, Prod.Lex.toLex_lt_toLex]

theorem order_injective : Function.Injective order := by
  intro a b h
  obtain ⟨⟩ := a
  obtain ⟨⟩ := b
  simpa [order] using h

end Key

/-- Records of hours that follow each other. -/
def Ordered (stats : List Stat) : Prop := stats.Pairwise fun s t => s.key.order < t.key.order

section Order

variable {stats stats' : List Stat}

theorem Ordered.pairwise_keys (h : Ordered stats) :
    (stats.map Stat.key).Pairwise fun a b => a.order < b.order :=
  List.pairwise_map.mpr h

theorem Ordered.nodup_keys (h : Ordered stats) : (stats.map Stat.key).Nodup :=
  h.pairwise_keys.imp fun hlt heq => hlt.ne (congrArg Key.order heq)

/-- The same hours come in the same order. -/
theorem Ordered.keys_eq (h : Ordered stats) (h' : Ordered stats')
    (hkeys : ∀ k, k ∈ stats.map Stat.key ↔ k ∈ stats'.map Stat.key) :
    stats.map Stat.key = stats'.map Stat.key := by
  have hperm : (stats.map Stat.key).Perm (stats'.map Stat.key) :=
    (List.perm_ext_iff_of_nodup h.nodup_keys h'.nodup_keys).mpr hkeys
  exact hperm.eq_of_pairwise (fun a b _ _ hab hba => absurd (lt_trans hab hba) (lt_irrefl _))
    h.pairwise_keys h'.pairwise_keys

end Order

/-! ## One more record -/

section Insert

open Store (insertStat)

variable {s r : Stat} {stats : List Stat}

theorem mem_keys_insertStat (s : Stat) (stats : List Stat) (k : Key) :
    k ∈ (insertStat s stats).map Stat.key ↔ k = s.key ∨ k ∈ stats.map Stat.key := by
  induction stats with
  | nil => simp [insertStat]
  | cons t rest ih =>
      rw [insertStat]
      split
      · rename_i hkey
        simp [Stat.merge, hkey]
      · split
        · rw [List.map_cons, List.mem_cons]
        · rw [List.map_cons, List.mem_cons, ih, List.map_cons, List.mem_cons]
          exact or_left_comm

theorem Ordered.insertStat (h : Ordered stats) (s : Stat) : Ordered (insertStat s stats) := by
  induction stats with
  | nil => exact List.pairwise_singleton ..
  | cons t rest ih =>
      obtain ⟨hhead, htail⟩ := List.pairwise_cons.mp h
      rw [Store.insertStat]
      split
      · exact List.pairwise_cons.mpr ⟨hhead, htail⟩
      · rename_i hne
        split
        · rename_i hbefore
          have hlt := Key.before_iff.mp hbefore
          refine List.pairwise_cons.mpr ⟨fun r hr => ?_, h⟩
          rcases List.mem_cons.mp hr with rfl | hr
          · exact hlt
          · exact lt_trans hlt (hhead r hr)
        · rename_i hbehind
          have hlt : t.key.order < s.key.order :=
            lt_of_le_of_ne (not_lt.mp (mt Key.before_iff.mpr hbehind))
              fun heq => hne (Key.order_injective heq)
          refine List.pairwise_cons.mpr ⟨fun r hr => ?_, ih htail⟩
          have hkey := (mem_keys_insertStat s rest r.key).mp (List.mem_map_of_mem hr)
          rcases hkey with hkey | hkey
          · exact hkey ▸ hlt
          · obtain ⟨r', hr', heq⟩ := List.mem_map.mp hkey
            exact heq ▸ hhead r' hr'

/-- A new record changes that of its own hour, if there is one, and no other one. -/
theorem mem_insertStat (h : Ordered stats) (hr : r ∈ insertStat s stats) :
    r ∈ stats ∧ r.key ≠ s.key ∨ r = s ∧ s.key ∉ stats.map Stat.key ∨
      ∃ t ∈ stats, t.key = s.key ∧ r = t.merge s := by
  induction stats with
  | nil => exact .inr (.inl ⟨List.mem_singleton.mp hr, List.not_mem_nil⟩)
  | cons t rest ih =>
      obtain ⟨hhead, htail⟩ := List.pairwise_cons.mp h
      rw [insertStat] at hr
      split at hr
      · rename_i hkey
        rcases List.mem_cons.mp hr with rfl | hr
        · exact .inr (.inr ⟨t, List.mem_cons_self .., hkey, rfl⟩)
        · have hne : r.key ≠ s.key := fun heq =>
            (hhead r hr).ne (congrArg Key.order (hkey.trans heq.symm))
          exact .inl ⟨List.mem_cons_of_mem _ hr, hne⟩
      · rename_i hne
        split at hr
        · rename_i hbefore
          have hlater {t' : Stat} (ht' : t' ∈ t :: rest) : s.key.order < t'.key.order := by
            have hlt := Key.before_iff.mp hbefore
            rcases List.mem_cons.mp ht' with rfl | ht'
            · exact hlt
            · exact lt_trans hlt (hhead t' ht')
          rcases List.mem_cons.mp hr with rfl | hr
          · refine .inr (.inl ⟨rfl, fun hmem => ?_⟩)
            obtain ⟨t', ht', heq⟩ := List.mem_map.mp hmem
            exact (hlater ht').ne (congrArg Key.order heq.symm)
          · exact .inl ⟨hr, fun heq => (hlater hr).ne (congrArg Key.order heq.symm)⟩
        · rcases List.mem_cons.mp hr with rfl | hr
          · exact .inl ⟨List.mem_cons_self .., hne⟩
          · rcases ih htail hr with ⟨hmem, hkey⟩ | ⟨heq, hnew⟩ | ⟨t', ht', hkey, heq⟩
            · exact .inl ⟨List.mem_cons_of_mem _ hmem, hkey⟩
            · refine .inr (.inl ⟨heq, fun hmem => ?_⟩)
              rcases List.mem_cons.mp hmem with hkey | hmem
              · exact hne hkey.symm
              · exact hnew hmem
            · exact .inr (.inr ⟨t', List.mem_cons_of_mem _ ht', hkey, heq⟩)

end Insert

/-! ## Sums over some hours -/

/-- What a record counts among those of some hours. -/
def share (p : Key → Bool) (count : Stat → UInt64) (s : Stat) : Nat :=
  if p s.key then (count s).toNat else 0

section Sums

variable {p : Key → Bool} {count : Stat → UInt64}

theorem sum_filter_eq_share (stats : List Stat) :
    ((stats.filter fun t => p t.key).map fun t => (count t).toNat).sum
      = (stats.map (share p count)).sum := by
  induction stats with
  | nil => rfl
  | cons t rest ih =>
      rw [List.map_cons, List.sum_cons, share, ← ih]
      by_cases ht : p t.key = true <;> simp [ht]

/-- As long as it is a count, a sum grows by what a new record counts. -/
theorem sum_insertStat (hmerge : ∀ s t, count (s.merge t) = saturatingAdd (count s) (count t))
    {s : Stat} {stats : List Stat}
    (hfits : (stats.map (share p count)).sum + share p count s < UInt64.size) :
    ((Store.insertStat s stats).map (share p count)).sum
      = (stats.map (share p count)).sum + share p count s := by
  induction stats with
  | nil => exact Nat.add_comm _ _
  | cons t rest ih =>
      rw [List.map_cons, List.sum_cons] at hfits
      rw [Store.insertStat]
      split
      · rename_i hkey
        have hshare : share p count (t.merge s) = share p count t + share p count s := by
          simp only [share, ← hkey] at hfits ⊢
          change (if p t.key = true then _ else 0) = _
          split
          · rename_i hp
            rw [if_pos hp, if_pos hp] at hfits
            rw [hmerge, toNat_saturatingAdd]
            omega
          · rfl
        rw [List.map_cons, List.sum_cons, List.map_cons, List.sum_cons, hshare]
        omega
      · split
        · rw [List.map_cons, List.sum_cons]
          exact Nat.add_comm _ _
        · rw [List.map_cons, List.sum_cons, List.map_cons, List.sum_cons, ih (by omega)]
          omega

end Sums

/-! ## What a record gathers -/

section Union

variable {x : String} {xs ys : List String}

theorem mem_union : x ∈ union xs ys ↔ x ∈ xs ∨ x ∈ ys := by
  induction ys generalizing xs with
  | nil => simp [union]
  | cons y ys ih =>
      have hstep : union xs (y :: ys) = union (if xs.contains y then xs else xs ++ [y]) ys := rfl
      rw [hstep, ih, List.mem_cons]
      split
      · rename_i hy
        constructor
        · exact Or.imp_right .inr
        · rintro (hx | rfl | hx)
          · exact .inl hx
          · exact .inl (List.contains_iff_mem.mp hy)
          · exact .inr hx
      · rw [List.mem_append, List.mem_singleton, or_assoc]

theorem nodup_union (h : xs.Nodup) (ys : List String) : (union xs ys).Nodup := by
  induction ys generalizing xs with
  | nil => exact h
  | cons y ys ih =>
      have hstep : union xs (y :: ys) = union (if xs.contains y then xs else xs ++ [y]) ys := rfl
      rw [hstep]
      split
      · exact ih h
      · rename_i hy
        refine ih (List.nodup_append.mpr ⟨h, List.nodup_singleton y, fun a ha b hb heq => ?_⟩)
        obtain rfl := List.mem_singleton.mp hb
        exact hy (List.contains_iff_mem.mpr (heq ▸ ha))

end Union

namespace Stat

/-- A record that is all of some others: sums as far as a count goes, the
first time, and the reasons, each once. -/
structure Gathers (r : Stat) (stats : List Stat) : Prop where
  prompt : r.usage.prompt.toNat
    = min (stats.map fun s => s.usage.prompt.toNat).sum (UInt64.size - 1)
  completion : r.usage.completion.toNat
    = min (stats.map fun s => s.usage.completion.toNat).sum (UInt64.size - 1)
  counter : r.counter.toNat = min (stats.map fun s => s.counter.toNat).sum (UInt64.size - 1)
  createdAt : IsLeast {t | t ∈ stats.map Stat.createdAt} r.createdAt
  nodup : r.finishReasons.Nodup
  finishReasons : ∀ reason, reason ∈ r.finishReasons ↔ ∃ s ∈ stats, reason ∈ s.finishReasons

theorem gathers_singleton {s : Stat} (h : s.finishReasons.Nodup) : s.Gathers [s] := by
  have hcount (c : UInt64) : c.toNat = min [c.toNat].sum (UInt64.size - 1) := by
    have hlt : c.toNat < UInt64.size := c.toNat_lt
    rw [List.sum_singleton]
    omega
  refine ⟨hcount _, hcount _, hcount _, ?_, h, fun reason => by simp⟩
  exact ⟨List.mem_singleton_self _, fun t ht => (List.mem_singleton.mp ht).ge⟩

theorem Gathers.merge {r : Stat} {stats : List Stat} (h : r.Gathers stats) (s : Stat) :
    (r.merge s).Gathers (stats ++ [s]) := by
  refine ⟨?_, ?_, ?_, ?_, nodup_union h.nodup s.finishReasons, fun reason => ?_⟩
  · rw [List.map_append]
    exact toNat_saturatingAdd_of_sum h.prompt
  · rw [List.map_append]
    exact toNat_saturatingAdd_of_sum h.completion
  · rw [List.map_append]
    exact toNat_saturatingAdd_of_sum h.counter
  · rw [List.map_append]
    exact Instant.isLeast_concat h.createdAt s.createdAt
  · rw [Stat.merge, mem_union, h.finishReasons]
    simp [or_and_right, exists_or]

/-- Two records that differ in the order of their reasons at most. -/
structure Like (r r' : Stat) : Prop where
  key : r.key = r'.key
  usage : r.usage = r'.usage
  counter : r.counter = r'.counter
  createdAt : r.createdAt = r'.createdAt
  finishReasons : r.finishReasons.Perm r'.finishReasons

theorem Gathers.like {r r' : Stat} {stats stats' : List Stat} (h : r.Gathers stats)
    (h' : r'.Gathers stats') (hperm : stats.Perm stats') (hkey : r.key = r'.key) : r.Like r' := by
  have hsum (f : Stat → Nat) : (stats.map f).sum = (stats'.map f).sum := (hperm.map f).sum_eq
  have hprompt : r.usage.prompt = r'.usage.prompt := by
    rw [← UInt64.toNat_inj, h.prompt, h'.prompt, hsum]
  have hcompletion : r.usage.completion = r'.usage.completion := by
    rw [← UInt64.toNat_inj, h.completion, h'.completion, hsum]
  have htimes : {t | t ∈ stats.map Stat.createdAt} = {t | t ∈ stats'.map Stat.createdAt} := by
    ext t
    exact (hperm.map Stat.createdAt).mem_iff
  refine ⟨hkey, ?_, ?_, (htimes ▸ h.createdAt).unique h'.createdAt, ?_⟩
  · exact (Tokens.mk.injEq ..).mpr ⟨hprompt, hcompletion⟩
  · rw [← UInt64.toNat_inj, h.counter, h'.counter, hsum]
  · refine (List.perm_ext_iff_of_nodup h.nodup h'.nodup).mpr fun reason => ?_
    rw [h.finishReasons, h'.finishReasons]
    simp only [hperm.mem_iff]

end Stat

/-! ## All records -/

/-- The store that has been given some records. -/
def collect (raw : List Stat) : Store := raw.foldl (fun store s => store.aggregate s) .empty

section Collect

variable {raw raw' : List Stat}

theorem stats_collect_concat (raw : List Stat) (s : Stat) :
    (collect (raw ++ [s])).stats = Store.insertStat s (collect raw).stats := by
  rw [collect, List.foldl_append]
  rfl

theorem ordered_collect (raw : List Stat) : Ordered (collect raw).stats := by
  induction raw using List.reverseRecOn with
  | nil => exact List.Pairwise.nil
  | append_singleton raw s ih => exact stats_collect_concat raw s ▸ ih.insertStat s

theorem mem_keys_collect (raw : List Stat) (k : Key) :
    k ∈ (collect raw).stats.map Stat.key ↔ k ∈ raw.map Stat.key := by
  induction raw using List.reverseRecOn with
  | nil => rfl
  | append_singleton raw s ih =>
      rw [stats_collect_concat, mem_keys_insertStat, ih, List.map_append, List.mem_append,
        or_comm]
      simp

/-- The records of an hour. -/
def ofHour (k : Key) (raw : List Stat) : List Stat := raw.filter fun s => s.key = k

theorem gathers_of_mem_collect (hnodup : ∀ s ∈ raw, s.finishReasons.Nodup) {r : Stat}
    (hr : r ∈ (collect raw).stats) : r.Gathers (ofHour r.key raw) := by
  induction raw using List.reverseRecOn generalizing r with
  | nil => exact absurd hr List.not_mem_nil
  | append_singleton raw s ih =>
      have hs := hnodup s (List.mem_append_right _ (List.mem_singleton_self s))
      have hold {t : Stat} (ht : t ∈ (collect raw).stats) : t.Gathers (ofHour t.key raw) :=
        ih (fun t ht => hnodup t (List.mem_append_left _ ht)) ht
      rw [stats_collect_concat] at hr
      rw [ofHour, List.filter_append]
      rcases mem_insertStat (ordered_collect raw) hr with ⟨hr, hne⟩ | ⟨rfl, hnew⟩ |
        ⟨t, ht, hkey, rfl⟩
      · have hrest : [s].filter (fun s => s.key = r.key) = [] := by simp [Ne.symm hne]
        rw [hrest, List.append_nil]
        exact hold hr
      · have hnone : raw.filter (fun s => s.key = r.key) = [] := by
          rw [List.filter_eq_nil_iff]
          intro t ht
          simpa using fun hkey => hnew ((mem_keys_collect raw _).mpr
            (List.mem_map.mpr ⟨t, ht, hkey⟩))
        rw [hnone, List.nil_append]
        simpa using Stat.gathers_singleton hs
      · have hlast : [s].filter (fun s' => s'.key = (t.merge s).key) = [s] := by
          simp [Stat.merge, hkey]
        rw [hlast]
        exact (hold ht).merge s

/-- Records that came in another order are kept alike. -/
theorem collect_perm (hnodup : ∀ s ∈ raw, s.finishReasons.Nodup) (h : raw.Perm raw') :
    List.Forall₂ Stat.Like (collect raw).stats (collect raw').stats := by
  have hkeys : (collect raw).stats.map Stat.key = (collect raw').stats.map Stat.key := by
    refine (ordered_collect raw).keys_eq (ordered_collect raw') fun k => ?_
    rw [mem_keys_collect, mem_keys_collect, (h.map Stat.key).mem_iff]
  have hsame : List.Forall₂ (fun r r' => r.key = r'.key) (collect raw).stats
      (collect raw').stats := by
    rwa [← List.forall₂_eq_eq_eq, List.forall₂_map_left_iff, List.forall₂_map_right_iff] at hkeys
  obtain ⟨hlength, hzip⟩ := List.forall₂_iff_zip.mp hsame
  refine List.forall₂_iff_zip.mpr ⟨hlength, fun {r r'} hmem => ?_⟩
  obtain ⟨hr, hr'⟩ := List.of_mem_zip hmem
  have hkey : r.key = r'.key := hzip hmem
  refine (gathers_of_mem_collect hnodup hr).like
    (gathers_of_mem_collect (fun s hs => hnodup s (h.mem_iff.mpr hs)) hr') ?_ hkey
  rw [← hkey]
  exact h.filter _

/-! ## Windows over them -/

theorem sum_collect {p : Key → Bool} {count : Stat → UInt64}
    (hmerge : ∀ s t, count (s.merge t) = saturatingAdd (count s) (count t))
    (hfits : (raw.map (share p count)).sum < UInt64.size) :
    ((collect raw).stats.map (share p count)).sum = (raw.map (share p count)).sum := by
  induction raw using List.reverseRecOn with
  | nil => rfl
  | append_singleton raw s ih =>
      rw [List.map_append, List.sum_append, List.map_singleton, List.sum_singleton] at hfits ⊢
      have hraw := ih (by omega)
      rw [stats_collect_concat, sum_insertStat hmerge (hraw.symm ▸ hfits), hraw]

/-- Totals of some records are those of what is kept of them. -/
theorem Totals.Exact.kept {t : Totals} {p : Key → Bool}
    (h : t.Exact (raw.filter fun s => p s.key)) :
    t.Exact ((collect raw).stats.filter fun s => p s.key) := by
  have hkept {count : Stat → UInt64} {c : UInt64}
      (hmerge : ∀ s t, count (s.merge t) = saturatingAdd (count s) (count t))
      (hc : c.toNat = ((raw.filter fun s => p s.key).map fun s => (count s).toNat).sum) :
      c.toNat = (((collect raw).stats.filter fun s => p s.key).map
        fun s => (count s).toNat).sum := by
    have hlt : c.toNat < UInt64.size := c.toNat_lt
    rw [sum_filter_eq_share] at hc ⊢
    rw [sum_collect hmerge (hc ▸ hlt), hc]
  have hprompt := hkept (fun _ _ => rfl) h.prompt
  have hcompletion := hkept (fun _ _ => rfl) h.completion
  refine ⟨hprompt, hcompletion, ?_, hkept (fun _ _ => rfl) h.requests⟩
  have hsplit (stats : List Stat) : tokensOf stats = (stats.map fun s => s.usage.prompt.toNat).sum
      + (stats.map fun s => s.usage.completion.toNat).sum := List.sum_map_add
  rw [h.overall, hsplit, hsplit, ← hprompt, ← hcompletion, h.prompt, h.completion]

theorem Windows.Exact.kept {now : Instant} {w : Windows} (h : w.Exact now raw) :
    w.Exact now (collect raw).stats := by
  have hmonth {t : Totals} {m : Month} (ht : t.Exact (ofMonth m raw)) :
      t.Exact (ofMonth m (collect raw).stats) :=
    Totals.Exact.kept (p := fun k => (⟨k.year, k.month⟩ : Month) = m) ht
  have hday : w.today.Exact (ofDay now (collect raw).stats) := Totals.Exact.kept
    (p := fun k => (⟨k.year, k.month⟩ : Month) = now.inMonth ∧ k.day = now.day) h.today
  exact ⟨hmonth h.thisMonth, hmonth h.lastMonth, hday⟩

theorem Totals.Exact.perm {t : Totals} {stats stats' : List Stat} (h : t.Exact stats)
    (hperm : stats.Perm stats') : t.Exact stats' := by
  have hsum (f : Stat → Nat) : (stats.map f).sum = (stats'.map f).sum := (hperm.map f).sum_eq
  exact ⟨h.prompt.trans (hsum _), h.completion.trans (hsum _), h.overall.trans (hsum _),
    h.requests.trans (hsum _)⟩

theorem Windows.Exact.perm {now : Instant} {w : Windows} {stats stats' : List Stat}
    (h : w.Exact now stats) (hperm : stats.Perm stats') : w.Exact now stats' :=
  ⟨h.thisMonth.perm (hperm.filter _), h.lastMonth.perm (hperm.filter _),
    h.today.perm (hperm.filter _)⟩

/-- If the true totals are counts, then the windows over what is kept hold them, in whatever
order it is read. -/
theorem exists_windows {now : Instant} (hmonth : 0 < now.month)
    (hcalendar : ¬(now.year = Calendar.firstYear ∧ now.month = 1))
    (hthis : Fits (ofMonth now.inMonth raw)) (hbefore : Fits (ofMonth now.inMonth.previous raw)) :
    ∃ w : Windows, w.Exact now raw ∧ ∀ stats : List Stat, stats.Perm (collect raw).stats →
      Windows.ofStats? now stats = some w := by
  have hexact : (Windows.wrapped now raw).Exact now raw :=
    Windows.exact_iff.mpr ⟨rfl, hthis, hbefore⟩
  refine ⟨_, hexact, fun stats hperm => ?_⟩
  rw [Windows.ofStats?_eq hmonth hcalendar, (Windows.exact_iff.mp (hexact.kept.perm hperm.symm)).1]

end Collect

/-! ## The month before -/

theorem not_mem_ofMonth_previous {now : Instant} (hmonth : 0 < now.month) {s : Stat}
    {stats : List Stat} (hthis : s ∈ ofMonth now.inMonth stats) :
    s ∉ ofMonth now.inMonth.previous stats := by
  intro hbefore
  have hthis := of_decide_eq_true (List.mem_filter.mp hthis).2
  have hbefore := of_decide_eq_true (List.mem_filter.mp hbefore).2
  exact previous_ne (m := now.inMonth) hmonth (hbefore.symm.trans hthis)

/-- The first day of a month comes after the last one of the month before it. -/
theorem previousDay_firstDay {now : Instant} (hfirst : 1 ≤ now.month) (hlast : now.month ≤ 12) :
    { now with day := 1 }.previousDay.inMonth = now.inMonth.previous ∧
      { now with day := 1 }.previousDay.nextDay = { now with day := 1 } := by
  rcases Nat.eq_or_lt_of_le hfirst with hjanuary | hlater
  · simp [Instant.previousDay, Instant.nextDay, Instant.inMonth, Month.previous, ← hjanuary,
      Calendar.daysIn]
  · have hmonth : now.month ≠ 1 := by omega
    have hnext : now.month - 1 < 12 := by omega
    simp [Instant.previousDay, Instant.nextDay, Instant.inMonth, Month.previous, hlater, hmonth,
      hnext, Nat.sub_add_cancel hfirst]

/-! ## Nothing is lost -/

/-- One event that is counted. -/
structure Event where
  name : String
  usage : Tokens
  finishReason : Option String
  time : Instant
deriving DecidableEq, Repr

def Event.stat (e : Event) : Stat := .ofEvent e.name e.usage e.finishReason e.time

theorem Event.nodup_finishReasons (e : Event) : e.stat.finishReasons.Nodup := by
  rw [stat, Stat.ofEvent]
  cases e.finishReason with
  | none => exact List.nodup_nil
  | some reason => exact List.nodup_singleton reason

/-- **Nothing is lost by counting hours.** The store keeps one record for each
event name and hour that occur, and it gathers those of that hour. Events that
come in another order are kept alike, but for the order of reasons. And as long
as the true totals of the windows are counts, the windows over the store are
those totals over the single events, in whatever order the store is read. The
month before is the one that the day before the first of the month is in, and
no event is counted in both. -/
theorem buckets_lose_nothing (events : List Event) :
    let raw := events.map Event.stat
    let store := collect raw
    (store.stats.map Stat.key).Nodup ∧
    (∀ k, k ∈ store.stats.map Stat.key ↔ k ∈ raw.map Stat.key) ∧
    (∀ r ∈ store.stats, r.Gathers (ofHour r.key raw)) ∧
    (∀ events' : List Event, events.Perm events' →
      List.Forall₂ Stat.Like store.stats (collect (events'.map Event.stat)).stats) ∧
    ∀ now : Instant, 1 ≤ now.month → now.month ≤ 12 →
      ¬(now.year = Calendar.firstYear ∧ now.month = 1) →
        ({ now with day := 1 }.previousDay.inMonth = now.inMonth.previous ∧
          { now with day := 1 }.previousDay.nextDay = { now with day := 1 }) ∧
        (∀ s ∈ raw, ¬(s ∈ ofMonth now.inMonth raw ∧ s ∈ ofMonth now.inMonth.previous raw)) ∧
        (Fits (ofMonth now.inMonth raw) → Fits (ofMonth now.inMonth.previous raw) →
          ∃ w : Windows, w.Exact now raw ∧ store.summary? now = some w ∧
            ∀ stats : List Stat, stats.Perm store.stats →
              Windows.ofStats? now stats = some w) := by
  intro raw store
  have hnodup : ∀ s ∈ raw, s.finishReasons.Nodup := by
    intro s hs
    obtain ⟨e, -, rfl⟩ := List.mem_map.mp hs
    exact e.nodup_finishReasons
  refine ⟨(ordered_collect raw).nodup_keys, mem_keys_collect raw,
    fun r => gathers_of_mem_collect hnodup, fun events' hperm => ?_, ?_⟩
  · exact collect_perm hnodup (hperm.map Event.stat)
  · intro now hfirst hlast hcalendar
    refine ⟨previousDay_firstDay hfirst hlast, ?_, ?_⟩
    · rintro s - ⟨hthis, hbefore⟩
      exact not_mem_ofMonth_previous hfirst hthis hbefore
    · intro hthis hbefore
      obtain ⟨w, hexact, hread⟩ := exists_windows hfirst hcalendar hthis hbefore
      exact ⟨w, hexact, hread _ (List.Perm.refl _), hread⟩

/-- Half past noon of a day in January. -/
def halfPast : Instant :=
  { year := 2025, month := 1, day := 15, hour := 12, minute := 30, second := 0, nano := 0 }

/-- Two events of one hour, the later one first, one of the month before, and two of an hour of
autumn that is full. -/
def yearTurn : List Event :=
  let autumn : Instant := { halfPast with year := 2024, month := 11 }
  [{ name := "flow", usage := ⟨10, 0⟩, finishReason := some "stop", time := halfPast },
    { name := "flow", usage := ⟨0, 7⟩, finishReason := some "length",
      time := { halfPast with minute := 5 } },
    { name := "flow", usage := ⟨100, 100⟩, finishReason := none,
      time := { halfPast with year := 2024, month := 12 } },
    { name := "flow", usage := ⟨18446744073709551615, 0⟩, finishReason := none, time := autumn },
    { name := "flow", usage := ⟨1, 0⟩, finishReason := none, time := autumn }]

/-- An hour that is full does not matter to windows that it is in none of. -/
theorem buckets_lose_nothing_yearTurn :
    let raw := yearTurn.map Event.stat
    (∃ w : Windows, (collect raw).summary? halfPast = some w ∧ w.thisMonth.overall.toNat = 17 ∧
      w.lastMonth.overall.toNat = 200 ∧ w.today.requests.toNat = 2) ∧
    List.Forall₂ Stat.Like (collect raw).stats
      (collect (yearTurn.reverse.map Event.stat)).stats := by
  intro raw
  obtain ⟨-, -, -, hperm, hwindows⟩ := buckets_lose_nothing yearTurn
  obtain ⟨-, -, htotals⟩ := hwindows halfPast (by decide) (by decide) (by decide)
  obtain ⟨w, hexact, hsummary, -⟩ := htotals (by decide) (by decide)
  refine ⟨⟨w, hsummary, ?_, ?_, ?_⟩, hperm _ yearTurn.reverse_perm.symm⟩
  · exact hexact.thisMonth.overall.trans (by decide)
  · exact hexact.lastMonth.overall.trans (by decide)
  · exact hexact.today.requests.trans (by decide)

end Ensemble.Usage
