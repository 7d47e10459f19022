import Ensemble.Decimal.Notation

/-!
# Spans of time

A span is shown in the largest unit that it fills, with the places of that unit that it needs.
-/

namespace Ensemble

structure Span where
  seconds : Nat
  nanos : Nat
deriving DecidableEq, Repr

namespace Span

def ofMillis (n : Nat) : Span := { seconds := n / 1000, nanos := n % 1000 * 1000000 }

/-- A span of seconds and nanoseconds, where a thousand million of the latter make one more. -/
def ofParts (seconds nanos : Nat) : Span :=
  { seconds := seconds + nanos / 1000000000, nanos := nanos % 1000000000 }

def toMillis (s : Span) : Nat := s.seconds * 1000 + s.nanos / 1000000

/-- The places of a part that is counted in units of `10 ^ -width`, without trailing zeros. -/
def places (width part : Nat) : List Char :=
  let digits := Decimal.natural part
  let all := List.replicate (width - digits.length) '0' ++ digits
  (all.reverse.dropWhile (· = '0')).reverse

/-- A whole number and places of a unit. -/
def measure (whole width part : Nat) (unit : List Char) : String :=
  let places := places width part
  String.ofList (Decimal.natural whole ++ (if places.isEmpty then [] else '.' :: places) ++ unit)

def render (s : Span) : String :=
  if 0 < s.seconds then measure s.seconds 9 s.nanos ['s']
  else if 1000000 ≤ s.nanos then measure (s.nanos / 1000000) 6 (s.nanos % 1000000) ['m', 's']
  else if 1000 ≤ s.nanos then measure (s.nanos / 1000) 3 (s.nanos % 1000) ['µ', 's']
  else measure s.nanos 0 0 ['n', 's']

end Span

end Ensemble
