import Ensemble.Decimal.Reading
import Ensemble.Text.Characters
import Ensemble.Time.Instant

/-!
# Reading instants

The usual notation with an offset, read generously: blanks may stand around the parts, years may
have a sign and then any number of digits, and the offset may have blanks or colons in it.
-/

namespace Ensemble.Instant

open Text

/-- Up to `width` digits, and what follows them; at least one is needed. -/
def digits? (width : Nat) (cs : List Char) : Option (List Char × List Char) :=
  let digits := (cs.take width).takeWhile Char.isDigit
  if digits.isEmpty then none else some (digits, cs.drop digits.length)

def number? (width : Nat) (cs : List Char) : Option (Nat × List Char) :=
  (digits? width (trimLeft cs)).map fun (digits, rest) => (Decimal.ofDigits digits, rest)

/-- A year of four digits, or of any number of them after a sign. -/
def year? (cs : List Char) : Option (Int × List Char) :=
  match trimLeft cs with
  | '-' :: cs => (digits? cs.length cs).map fun (ds, rest) => (-(Decimal.ofDigits ds : Int), rest)
  | '+' :: cs => (digits? cs.length cs).map fun (ds, rest) => (Decimal.ofDigits ds, rest)
  | cs => (digits? 4 cs).map fun (ds, rest) => (Decimal.ofDigits ds, rest)

/-- The rest after a mark, which may have blanks before it. -/
def after? (mark : Char) (cs : List Char) : Option (List Char) :=
  match trimLeft cs with
  | c :: rest => if c = mark then some rest else none
  | [] => none

/-- The places of a second in nanoseconds; places after the ninth are passed over. -/
def nano? : List Char → Option (Nat × List Char)
  | '.' :: cs =>
    (digits? 9 cs).map fun (ds, rest) =>
      (Decimal.ofDigits ds * Nat.pow 10 (9 - ds.length), rest.dropWhile Char.isDigit)
  | cs => some (0, cs)

def twoDigits? : List Char → Option (Nat × List Char)
  | a :: b :: rest =>
    if a.isDigit && b.isDigit then some (Decimal.ofDigits [a, b], rest) else none
  | _ => none

/-- The minutes that a zone is ahead of UTC. -/
def offset? (cs : List Char) : Option (Int × List Char) :=
  match cs with
  | 'Z' :: rest => some (0, rest)
  | 'z' :: rest => some (0, rest)
  | sign :: rest => do
    let negative ← if sign = '+' then some false
      else if sign = '-' || sign = '−' then some true else none
    let (hours, rest) ← twoDigits? rest
    let (minutes, rest) ← twoDigits? (rest.dropWhile fun c => c = ':' || isBlank c)
    if 59 < minutes || 23 < hours then none
    else
      let total : Int := hours * 60 + minutes
      some (if negative then -total else total, rest)
  | [] => none

/-- The offset after a time of day, where a word may stand for UTC. -/
def zone? (cs : List Char) : Option (Int × List Char) :=
  match trimLeft cs with
  | u :: t :: c :: rest =>
    if u.toUpper = 'U' && t.toUpper = 'T' && c.toUpper = 'C' then some (0, rest)
    else offset? (u :: t :: c :: rest)
  | cs => offset? cs

/-- The instant of a date, a time of day and an offset, if there is one. -/
def ofParts? (year : Int) (month day hour minute second nano : Nat) (offset : Int) :
    Option Instant :=
  if year < Calendar.firstYear || Calendar.lastYear < year || month < 1 || 12 < month
      || day < 1 || Calendar.daysIn year month < day || 23 < hour || 59 < minute || 60 < second then
    none
  else
    let (second, nano) := if second = 60 then (59, nano + 1000000000) else (second, nano)
    let t := fromZone offset { year, month, day, hour, minute, second, nano }
    if t.year < Calendar.firstYear || Calendar.lastYear < t.year then none else some t

def readChars? (cs : List Char) : Option Instant := do
  let (year, cs) ← year? cs
  let (month, cs) ← number? 2 (← after? '-' cs)
  let (day, cs) ← number? 2 (← after? '-' cs)
  let cs ← match cs with
    | c :: rest => if c = 'T' || c = 't' || c = ' ' then some rest else none
    | [] => none
  let (hour, cs) ← number? 2 cs
  let (minute, cs) ← number? 2 (← after? ':' cs)
  let (second, cs) ← number? 2 (← after? ':' cs)
  let (nano, cs) ← nano? cs
  let (offset, cs) ← zone? cs
  if cs.all isBlank then ofParts? year month day hour minute second nano offset else none

def read? (s : String) : Option Instant := readChars? s.toList

end Ensemble.Instant
