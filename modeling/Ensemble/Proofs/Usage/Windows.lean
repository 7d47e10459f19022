import Ensemble.Proofs.Usage.Tokens
import Ensemble.Store.Services
import Mathlib.Algebra.BigOperators.Fin
import Mathlib.Data.List.Induction

/-!
# Totals of windows

The sums that a quota is judged on. A window holds what is left of the true
sums once they wrap around (`Totals.wrapped`), and the windows at an instant
are those of the records of this month, the one before and the day
(`Windows.ofStats?_eq`). As long as the true sums are counts, a window is
`Exact`; the sums of a day are counts if those of its month are.

Records stay at their largest value, totals do not. So a month can be full
without being over its budget: what is left of its sum may be less than the
budget (`Services.full_month_admitted`).
-/

namespace Ensemble

namespace Usage

/-! ## True sums -/

/-- All tokens of a record, of which there may be more than a count holds. -/
def Stat.tokens (s : Stat) : Nat := s.usage.prompt.toNat + s.usage.completion.toNat

def tokensOf (stats : List Stat) : Nat := (stats.map Stat.tokens).sum

def requestsOf (stats : List Stat) : Nat := (stats.map fun s => s.counter.toNat).sum

/-- The sums of some records are counts. -/
def Fits (stats : List Stat) : Prop :=
  tokensOf stats < UInt64.size ∧ requestsOf stats < UInt64.size

instance (stats : List Stat) : Decidable (Fits stats) := inferInstanceAs (Decidable (_ ∧ _))

theorem sum_filter_le (f : Stat → Nat) (p : Stat → Bool) (stats : List Stat) :
    ((stats.filter p).map f).sum ≤ (stats.map f).sum := by
  induction stats with
  | nil => exact Nat.le_refl _
  | cons s rest ih =>
      rw [List.map_cons, List.sum_cons]
      by_cases hs : p s = true
      · rw [List.filter_cons_of_pos hs, List.map_cons, List.sum_cons]
        exact Nat.add_le_add_left ih _
      · rw [List.filter_cons_of_neg hs]
        exact Nat.le_trans ih (Nat.le_add_left _ _)

theorem Fits.filter {stats : List Stat} (h : Fits stats) (p : Stat → Bool) :
    Fits (stats.filter p) :=
  ⟨Nat.lt_of_le_of_lt (sum_filter_le _ p stats) h.1,
    Nat.lt_of_le_of_lt (sum_filter_le _ p stats) h.2⟩

/-! ## One window -/

namespace Totals

/-- Each count of a window is the true sum over its records. -/
structure Exact (t : Totals) (stats : List Stat) : Prop where
  prompt : t.prompt.toNat = (stats.map fun s => s.usage.prompt.toNat).sum
  completion : t.completion.toNat = (stats.map fun s => s.usage.completion.toNat).sum
  overall : t.overall.toNat = tokensOf stats
  requests : t.requests.toNat = requestsOf stats

/-- What counts hold of the true sums over some records. -/
def wrapped (stats : List Stat) : Totals :=
  { overall := .ofNat (tokensOf stats)
    prompt := .ofNat (stats.map fun s => s.usage.prompt.toNat).sum
    completion := .ofNat (stats.map fun s => s.usage.completion.toNat).sum
    requests := .ofNat (requestsOf stats) }

/-- Counting one more record adds to the true sums before they wrap around. -/
theorem wrapped_concat (stats : List Stat) (s : Stat) :
    wrapped (stats ++ [s]) = (wrapped stats).add s := by
  simp [wrapped, add, tokensOf, requestsOf, Stat.tokens, UInt64.ofNat_add]

/-- A record is counted if it belongs to the window. -/
theorem wrapped_filter_concat (p : Stat → Bool) (stats : List Stat) (s : Stat) :
    wrapped ((stats ++ [s]).filter p)
      = if p s then (wrapped (stats.filter p)).add s else wrapped (stats.filter p) := by
  rw [List.filter_append]
  by_cases hs : p s = true
  · rw [List.filter_cons_of_pos hs, List.filter_nil, wrapped_concat, if_pos hs]
  · rw [List.filter_cons_of_neg hs, List.filter_nil, List.append_nil, if_neg hs]

/-- Totals are exact if they are what counts hold of the true sums, and these are counts. -/
theorem exact_iff {t : Totals} {stats : List Stat} :
    t.Exact stats ↔ t = wrapped stats ∧ Fits stats := by
  constructor
  · intro h
    have heq {c : UInt64} {n : Nat} (hc : c.toNat = n) : c = .ofNat n :=
      hc ▸ UInt64.ofNat_toNat.symm
    exact ⟨(Totals.mk.injEq ..).mpr
        ⟨heq h.overall, heq h.prompt, heq h.completion, heq h.requests⟩,
      h.overall ▸ t.overall.toNat_lt, h.requests ▸ t.requests.toNat_lt⟩
  · rintro ⟨rfl, htokens, hrequests⟩
    have hsplit : tokensOf stats = (stats.map fun s => s.usage.prompt.toNat).sum +
        (stats.map fun s => s.usage.completion.toNat).sum := List.sum_map_add
    have hcount {n : Nat} (h : n < UInt64.size) : (UInt64.ofNat n).toNat = n :=
      UInt64.toNat_ofNat_of_lt' h
    exact ⟨hcount (by omega), hcount (by omega), hcount htokens, hcount hrequests⟩

end Totals

/-! ## All windows -/

def Stat.inMonth (s : Stat) : Month := { year := s.key.year, month := s.key.month }

/-- The records of a month. -/
def ofMonth (month : Month) (stats : List Stat) : List Stat :=
  stats.filter fun s => s.inMonth = month

/-- The records of the day of an instant. -/
def ofDay (now : Instant) (stats : List Stat) : List Stat :=
  stats.filter fun s => s.inMonth = now.inMonth ∧ s.key.day = now.day

theorem previous_ne {m : Month} (h : 0 < m.month) : m.previous ≠ m := by
  intro heq
  have hmonth := congrArg Month.month heq
  rw [Month.previous] at hmonth
  split at hmonth <;> simp only at hmonth <;> omega

namespace Windows

structure Exact (now : Instant) (w : Windows) (stats : List Stat) : Prop where
  thisMonth : w.thisMonth.Exact (ofMonth now.inMonth stats)
  lastMonth : w.lastMonth.Exact (ofMonth now.inMonth.previous stats)
  today : w.today.Exact (ofDay now stats)

/-- What counts hold of the true sums over the records of each window. -/
def wrapped (now : Instant) (stats : List Stat) : Windows :=
  { thisMonth := .wrapped (ofMonth now.inMonth stats)
    lastMonth := .wrapped (ofMonth now.inMonth.previous stats)
    today := .wrapped (ofDay now stats) }

/-- A record is counted in each window that it belongs to. -/
theorem add_eq {now : Instant} (w : Windows) (s : Stat) (hmonth : 0 < now.month) :
    w.add now s =
      { thisMonth := if s.inMonth = now.inMonth then w.thisMonth.add s else w.thisMonth
        lastMonth := if s.inMonth = now.inMonth.previous then w.lastMonth.add s else w.lastMonth
        today := if s.inMonth = now.inMonth ∧ s.key.day = now.day then w.today.add s
          else w.today } := by
  have hprevious : now.inMonth.previous ≠ now.inMonth := previous_ne hmonth
  have hmonths : s.inMonth = ⟨s.key.year, s.key.month⟩ := rfl
  by_cases hthis : s.inMonth = now.inMonth
  · by_cases hday : s.key.day = now.day <;>
      simp [add, ← hmonths, hthis, hday, hprevious.symm]
  · by_cases hlast : s.inMonth = now.inMonth.previous <;>
      simp [add, ← hmonths, hthis, hlast, hprevious]

theorem wrapped_concat {now : Instant} (hmonth : 0 < now.month) (stats : List Stat) (s : Stat) :
    wrapped now (stats ++ [s]) = (wrapped now stats).add now s := by
  rw [add_eq _ s hmonth]
  simp only [wrapped, ofMonth, ofDay, Totals.wrapped_filter_concat, decide_eq_true_eq]

theorem foldl_add_eq_wrapped {now : Instant} (hmonth : 0 < now.month) (stats : List Stat) :
    stats.foldl (add now) zero = wrapped now stats := by
  induction stats using List.reverseRecOn with
  | nil => rfl
  | append_singleton stats s ih =>
      rw [List.foldl_append, ih, wrapped_concat hmonth, List.foldl_cons, List.foldl_nil]

/-- The windows at an instant hold what is left of the true sums of their records. -/
theorem ofStats?_eq {now : Instant} (hmonth : 0 < now.month)
    (hfirst : ¬(now.year = Calendar.firstYear ∧ now.month = 1)) (stats : List Stat) :
    ofStats? now stats = some (wrapped now stats) := by
  rw [ofStats?, if_neg hfirst, foldl_add_eq_wrapped hmonth]

/-- A day is part of its month. -/
theorem fits_ofDay {now : Instant} {stats : List Stat}
    (h : Fits (ofMonth now.inMonth stats)) : Fits (ofDay now stats) := by
  have hday : ofDay now stats = (ofMonth now.inMonth stats).filter fun s => s.key.day = now.day := by
    simp [ofDay, ofMonth, List.filter_filter, Bool.and_comm]
  exact hday ▸ h.filter _

/-- Windows are exact if they are what counts hold of the true sums, and those of both months are
counts. -/
theorem exact_iff {now : Instant} {w : Windows} {stats : List Stat} :
    w.Exact now stats ↔ w = wrapped now stats ∧ Fits (ofMonth now.inMonth stats) ∧
      Fits (ofMonth now.inMonth.previous stats) := by
  constructor
  · rintro ⟨hthis, hlast, htoday⟩
    obtain ⟨hthis, hfitsThis⟩ := Totals.exact_iff.mp hthis
    obtain ⟨hlast, hfitsLast⟩ := Totals.exact_iff.mp hlast
    exact ⟨(Windows.mk.injEq ..).mpr ⟨hthis, hlast, (Totals.exact_iff.mp htoday).1⟩,
      hfitsThis, hfitsLast⟩
  · rintro ⟨rfl, hthis, hlast⟩
    exact ⟨Totals.exact_iff.mpr ⟨rfl, hthis⟩, Totals.exact_iff.mpr ⟨rfl, hlast⟩,
      Totals.exact_iff.mpr ⟨rfl, fits_ofDay hthis⟩⟩

end Windows

end Usage

/-! ## Quotas -/

namespace Services

open Usage

/-- **What a budget is judged on.** The totals at an instant are what counts
hold of the true sums over each window, so a run is refused exactly if the
true sum of the tokens of the month, modulo the number of counts, has reached
the budget. As long as the true sum is a count, it is what decides. A budget
that is used up admits a run exactly if the sum has wrapped around to less. -/
theorem budget_decides_on_wrapped_sum {s : Services} {budget : UInt64} {now : Instant}
    (hfaults : s.faults = []) (hquota : s.quota = .budget budget) (hmonth : 0 < now.month)
    (hfirst : ¬(now.year = Calendar.firstYear ∧ now.month = 1)) :
    let used := tokensOf (ofMonth now.inMonth s.store.stats)
    s.summary? now = some (.ok (.wrapped now s.store.stats)) ∧
    s.checkQuota? now = some (if budget.toNat ≤ used % UInt64.size then
        .error (.quota { reason := "monthly token budget exhausted"
                         used := .ofNat (used % UInt64.size), allowed := budget })
      else .ok ()) ∧
    (used < UInt64.size → (s.checkQuota? now = some (.ok ()) ↔ used < budget.toNat)) ∧
    (budget.toNat ≤ used ∧ s.checkQuota? now = some (.ok ()) ↔
      UInt64.size ≤ used ∧ used % UInt64.size < budget.toNat) := by
  intro used
  have hsummary : s.summary? now = some (.ok (.wrapped now s.store.stats)) := by
    simp [summary?, hfaults, Store.summary?, Windows.ofStats?_eq hmonth hfirst]
  have hoverall : (Windows.wrapped now s.store.stats).thisMonth.overall.toNat
      = used % UInt64.size := UInt64.toNat_ofNat'
  have hcheck : s.checkQuota? now = some (if budget.toNat ≤ used % UInt64.size then
        .error (.quota { reason := "monthly token budget exhausted"
                         used := .ofNat (used % UInt64.size), allowed := budget })
      else .ok ()) := by
    rw [checkQuota?, hsummary, hquota, ← hoverall, UInt64.ofNat_toNat]
    simp only [hfaults, Quota.decide, UInt64.le_iff_toNat_le]
    by_cases hbudget : budget.toNat ≤ (Windows.wrapped now s.store.stats).thisMonth.overall.toNat <;>
      simp [hbudget, QuotaDecision.check]
  have hadmitted : s.checkQuota? now = some (.ok ()) ↔ used % UInt64.size < budget.toNat := by
    rw [hcheck, ← not_le]
    by_cases hbudget : budget.toNat ≤ used % UInt64.size <;> simp [hbudget]
  have hlt : budget.toNat < UInt64.size := budget.toNat_lt
  refine ⟨hsummary, hcheck, fun hfits => ?_, ?_⟩
  · rw [hadmitted, Nat.mod_eq_of_lt hfits]
  · rw [hadmitted]
    constructor
    · rintro ⟨hused, hrest⟩
      refine ⟨not_lt.mp fun hfits => ?_, hrest⟩
      rw [Nat.mod_eq_of_lt hfits] at hrest
      omega
    · rintro ⟨hwraps, hrest⟩
      exact ⟨by omega, hrest⟩

/-- Noon of a day in May. -/
def noon : Instant :=
  { year := 2024, month := 5, day := 10, hour := 12, minute := 0, second := 0, nano := 0 }

/-- A budget of a hundred tokens, of which models have charged some in the hours before noon. -/
def charged (usages : List Tokens) : Services :=
  let stats := usages.mapIdx fun i usage =>
    Stat.ofEvent "flow" usage (some "stop") { noon with hour := i }
  { store := stats.foldl (fun store stat => store.aggregate stat) .empty
    quota := .budget 100, faults := [], bills := false }

/-- Nothing is left of the budget once all of it is used. -/
theorem budget_exhausted :
    (charged [⟨60, 30⟩, ⟨0, 10⟩]).checkQuota? noon = some (.error (.quota
      { reason := "monthly token budget exhausted", used := 100, allowed := 100 })) := by
  have hmonth : 0 < noon.month := by decide
  obtain ⟨-, hcheck, -⟩ := budget_decides_on_wrapped_sum (s := charged [⟨60, 30⟩, ⟨0, 10⟩])
    rfl rfl hmonth (by decide)
  rw [hcheck]
  decide

/-- A record at its largest value and one more: the budget is used up many times, but of the sum
only four tokens are left, and the run is admitted. -/
theorem full_month_admitted :
    let s := charged [⟨18446744073709551615, 0⟩, ⟨0, 5⟩]
    tokensOf (ofMonth noon.inMonth s.store.stats) = 18446744073709551620 ∧
      (∃ w, s.summary? noon = some (.ok w) ∧ w.thisMonth.overall = 4) ∧
      s.checkQuota? noon = some (.ok ()) := by
  intro s
  exact ⟨by decide, ⟨.wrapped noon s.store.stats, by decide, by decide⟩, by decide⟩

end Services

end Ensemble
