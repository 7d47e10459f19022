import Ensemble.Proofs.Time.Order
import Ensemble.Trace.Sink

/-!
# Sinks and their times

Every chunk that is written is recorded (`write_chunks`). A sink gives out
later and later times, whatever the wall clock shows: it may stand still or
go back (`lt_stamp`). So the times of a trace ascend (`Timed`). Without a
chunk a sink may at most give out a time that no chunk gets in the end
(`Abides`).
-/

namespace Ensemble

namespace Sink

variable {s s' : Sink} {now : Instant}

@[simp] theorem write_chunks (s : Sink) (c : Chunk) :
    (s.write c).chunks = s.chunks ++ [c] := by
  unfold write
  cases s.channel with
  | none => rfl
  | some channel =>
      cases hwriting : s.writing <;> cases hup : channel.hungUp <;> simp [hup]

@[simp] theorem writeAt_chunks (s : Sink) (now : Instant) (build : Instant → Chunk) :
    (s.writeAt now build).chunks = s.chunks ++ [build (s.stamp now)] := write_chunks ..

/-- The times of the chunks of a trace. -/
def times (s : Sink) : List Instant := s.chunks.filterMap Chunk.time?

/-- The trace stays as it is. A chunk that had to wait and was given up has
used up a time. -/
structure Abides (s s' : Sink) : Prop where
  chunks : s'.chunks = s.chunks
  last : s'.lastAt = s.lastAt ∨
    ∃ time, s'.lastAt = some time ∧ ∀ last, s.lastAt = some last → last < time

/-- A sink whose times ascend up to the one that was given out last. -/
structure Timed (s : Sink) : Prop where
  ascending : s.times.Pairwise (· < ·)
  last : ∀ t ∈ s.times, ∃ last, s.lastAt = some last ∧ (t = last ∨ t < last)

theorem timed_of_fresh (h : s.chunks = []) : s.Timed := by
  constructor <;> simp [times, h]

theorem Timed.abides (hs : s.Timed) (h : s.Abides s') : s'.Timed := by
  have htimes : s'.times = s.times := by rw [times, h.chunks, times]
  refine ⟨htimes ▸ hs.ascending, fun t ht => ?_⟩
  obtain ⟨last, hlast, hle⟩ := hs.last t (htimes ▸ ht)
  rcases h.last with hsame | ⟨time, htime, hlater⟩
  · exact ⟨last, hsame.trans hlast, hle⟩
  · exact ⟨time, htime, Or.inr (Instant.lt_of_eq_or_lt hle (hlater last hlast))⟩

theorem lt_stamp {last : Instant} (h : s.lastAt = some last) (now : Instant) :
    last < s.stamp now := by
  simp only [stamp, h]
  split
  · assumption
  · exact last.lt_nextMicrosecond

@[simp] theorem write_lastAt (s : Sink) (c : Chunk) : (s.write c).lastAt = s.lastAt := by
  unfold write
  cases s.channel with
  | none => rfl
  | some channel => cases hwriting : s.writing <;> cases hup : channel.hungUp <;> simp [hup]

theorem Timed.write (hs : s.Timed) {c : Chunk} (hc : c.time? = none) : (s.write c).Timed := by
  have htimes : (s.write c).times = s.times := by simp [times, hc]
  refine ⟨htimes ▸ hs.ascending, fun t ht => ?_⟩
  rw [write_lastAt]
  exact hs.last t (htimes ▸ ht)

/-- A chunk gets a time after all others. -/
theorem Timed.writeAt (hs : s.Timed) {build : Instant → Chunk}
    (hbuild : ∀ time, (build time).time? = some time) (now : Instant) :
    (s.writeAt now build).Timed := by
  have htimes : (s.writeAt now build).times = s.times ++ [s.stamp now] := by
    simp [times, hbuild]
  have hlast : (s.writeAt now build).lastAt = some (s.stamp now) := write_lastAt ..
  have hlater : ∀ t ∈ s.times, t < s.stamp now := by
    intro t ht
    obtain ⟨last, hsome, hle⟩ := hs.last t ht
    exact Instant.lt_of_eq_or_lt hle (lt_stamp hsome now)
  constructor
  · rw [htimes]
    refine List.pairwise_append.mpr ⟨hs.ascending, List.pairwise_singleton .., ?_⟩
    intro t ht u hu
    obtain rfl := List.mem_singleton.mp hu
    exact hlater t ht
  · intro t ht
    rw [htimes] at ht
    refine ⟨_, hlast, ?_⟩
    rcases List.mem_append.mp ht with ht | ht
    · exact Or.inr (hlater t ht)
    · exact Or.inl (List.mem_singleton.mp ht)

/-- In a trace whose times ascend a chunk before another one has a smaller
time. -/
theorem Timed.time_lt (hs : s.Timed) {i j : Nat} {c d : Chunk} {t u : Instant}
    (hc : s.chunks[i]? = some c) (hd : s.chunks[j]? = some d) (ht : c.time? = some t)
    (hu : d.time? = some u) (hij : i < j) : t < u := by
  obtain ⟨hi, rfl⟩ := List.getElem?_eq_some_iff.mp hc
  obtain ⟨hj, rfl⟩ := List.getElem?_eq_some_iff.mp hd
  have hpairs := List.pairwise_filterMap.mp hs.ascending
  exact List.pairwise_iff_getElem.mp hpairs i j hi hj hij t ht u hu

end Sink

end Ensemble
