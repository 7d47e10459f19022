import Ensemble.Trace.Chunk

/-!
# Trace sinks

A sink records every chunk of a run. A streaming sink also hands each chunk as a line to a channel
that somebody reads from. The channel holds a limited number of lines; while it is full, the next
chunk has to wait (`hasRoom`). Once the stream is closed, or a line could not be handed over
because the reader is gone, no more lines are sent, and recording goes on.

The times of chunks are strictly increasing, whatever the wall clock says: a reading that is not
later than the last time is replaced by the next microsecond after it.
-/

namespace Ensemble

/-- The lines that have been handed to a channel, and how many of them have been read. -/
structure Channel where
  capacity : Nat
  sent : List String
  taken : Nat
  hungUp : Bool
deriving DecidableEq, Repr

structure Sink where
  chunks : List Chunk
  channel : Option Channel
  /-- Whether lines are still sent. -/
  writing : Bool
  lastAt : Option Instant
deriving Repr

namespace Channel

def waiting (c : Channel) : List String := c.sent.drop c.taken

def isFull (c : Channel) : Bool := c.capacity ≤ c.waiting.length

/-- The reader takes the next line. -/
def take (c : Channel) : Channel := { c with taken := min (c.taken + 1) c.sent.length }

end Channel

namespace Sink

/-- A sink that only records. -/
def buffered : Sink := { chunks := [], channel := none, writing := false, lastAt := none }

def streaming (capacity : Nat) : Sink :=
  { chunks := [], channel := some { capacity := max capacity 1, sent := [], taken := 0, hungUp := false }
    writing := true, lastAt := none }

def isStreaming (s : Sink) : Bool := s.channel.isSome

/-- Whether a chunk can be written at once. -/
def hasRoom (s : Sink) : Bool :=
  match s.channel with
  | some c => !s.writing || c.hungUp || !c.isFull
  | none => true

/-- Sends a chunk, if lines are still sent and somebody reads them, and records it. -/
def write (s : Sink) (c : Chunk) : Sink :=
  let s := { s with chunks := s.chunks ++ [c] }
  match s.channel with
  | none => s
  | some channel =>
    if !s.writing then s
    else if channel.hungUp then { s with writing := false }
    else { s with channel := some { channel with sent := channel.sent ++ [c.line] } }

/-- The time that the next chunk gets when the wall clock shows `now`. -/
def stamp (s : Sink) (now : Instant) : Instant :=
  match s.lastAt with
  | some last => if last < now then now else last.nextMicrosecond
  | none => now

/-- Writes a chunk that carries its time. -/
def writeAt (s : Sink) (now : Instant) (build : Instant → Chunk) : Sink :=
  let time := s.stamp now
  { s with lastAt := some time }.write (build time)

/-- Ends the stream; ending it again does nothing. -/
def close (s : Sink) : Sink := { s with writing := false }

/-- The reader goes away. -/
def hangUp (s : Sink) : Sink :=
  { s with channel := s.channel.map fun c => { c with hungUp := true } }

/-- The reader takes the next line. -/
def take (s : Sink) : Sink := { s with channel := s.channel.map Channel.take }

/-- The lines that wait for the reader. -/
def waiting (s : Sink) : List String :=
  match s.channel with
  | some c => c.waiting
  | none => []

/-- The reader takes all lines. -/
def takeAll (s : Sink) : Sink :=
  { s with channel := s.channel.map fun c => { c with taken := c.sent.length } }

end Sink

end Ensemble
