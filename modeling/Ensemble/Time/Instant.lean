import Ensemble.Decimal.Notation

/-!
# Instants

An instant is kept as its date and time of day in UTC. `nano` may reach two thousand million: an
inserted second is counted within the second before it. Instants are ordered by their fields,
which is the order of time.
-/

namespace Ensemble

structure Instant where
  year : Int
  month : Nat
  day : Nat
  hour : Nat
  minute : Nat
  second : Nat
  nano : Nat
deriving DecidableEq, Repr, Inhabited

/-- A year and a month in it. -/
structure Month where
  year : Int
  month : Nat
deriving DecidableEq, Repr

namespace Calendar

def isLeap (year : Int) : Bool := year % 4 = 0 && (year % 100 ≠ 0 || year % 400 = 0)

def daysIn (year : Int) (month : Nat) : Nat :=
  if month = 2 then if isLeap year then 29 else 28
  else if month = 4 || month = 6 || month = 9 || month = 11 then 30
  else 31

/-- The years that can be told apart. -/
def firstYear : Int := -262143

def lastYear : Int := 262142

end Calendar

/-- The month before, December of the year before in January. -/
def Month.previous (m : Month) : Month :=
  if m.month = 1 then { year := m.year - 1, month := 12 } else { m with month := m.month - 1 }

namespace Instant

def inMonth (t : Instant) : Month := { year := t.year, month := t.month }

/-! ## Order -/

/-- The time of day, with inserted seconds. -/
def nanoOfDay (t : Instant) : Nat × Nat := ((t.hour * 60 + t.minute) * 60 + t.second, t.nano)

def before (s t : Instant) : Bool :=
  s.year < t.year || (s.year = t.year &&
    (s.month < t.month || (s.month = t.month &&
      (s.day < t.day || (s.day = t.day &&
        (s.hour < t.hour || (s.hour = t.hour &&
          (s.minute < t.minute || (s.minute = t.minute &&
            (s.second < t.second || (s.second = t.second && s.nano < t.nano)))))))))))

instance : LT Instant := ⟨fun s t => s.before t = true⟩

instance (s t : Instant) : Decidable (s < t) := inferInstanceAs (Decidable (s.before t = true))

/-- The later of two instants. -/
def latest (s t : Instant) : Instant := if s < t then t else s

def earliest (s t : Instant) : Instant := if t < s then t else s

/-! ## Steps -/

def nextDay (t : Instant) : Instant :=
  if t.day < Calendar.daysIn t.year t.month then { t with day := t.day + 1 }
  else if t.month < 12 then { t with month := t.month + 1, day := 1 }
  else { t with year := t.year + 1, month := 1, day := 1 }

def previousDay (t : Instant) : Instant :=
  if 1 < t.day then { t with day := t.day - 1 }
  else if 1 < t.month then
    { t with month := t.month - 1, day := Calendar.daysIn t.year (t.month - 1) }
  else { t with year := t.year - 1, month := 12, day := 31 }

def nextSecond (t : Instant) : Instant :=
  if t.second < 59 then { t with second := t.second + 1 }
  else if t.minute < 59 then { t with minute := t.minute + 1, second := 0 }
  else if t.hour < 23 then { t with hour := t.hour + 1, minute := 0, second := 0 }
  else { t with hour := 0, minute := 0, second := 0 }.nextDay

/-- The instant one microsecond later. -/
def nextMicrosecond (t : Instant) : Instant :=
  let size := if t.nano < 1000000000 then 1000000000 else 2000000000
  if t.nano + 1000 < size then { t with nano := t.nano + 1000 }
  else { t with nano := t.nano + 1000 - size }.nextSecond

/-- The instant whose date and time are read in a zone that is `minutes` ahead of UTC. -/
def fromZone (minutes : Int) (t : Instant) : Instant :=
  let total : Int := (t.hour * 60 + t.minute : Nat) - minutes
  let inDay := (total % 1440).toNat
  let t := if total < 0 then t.previousDay else if 1440 ≤ total then t.nextDay else t
  { t with hour := inDay / 60, minute := inDay % 60 }

/-! ## Notation -/

/-- At least `width` digits. -/
def padded (width n : Nat) : List Char :=
  let digits := Decimal.natural n
  List.replicate (width - digits.length) '0' ++ digits

/-- Four digits, after a sign if the year is not one of these. -/
def yearDigits (year : Int) : List Char :=
  if 0 ≤ year ∧ year ≤ 9999 then padded 4 year.toNat
  else (if year < 0 then '-' else '+') :: padded 4 year.natAbs

def dateDigits (t : Instant) : List Char :=
  yearDigits t.year ++ '-' :: (padded 2 t.month ++ '-' :: padded 2 t.day)

/-- The time of day, where an inserted second is the sixtieth. -/
def timeDigits (t : Instant) : List Char :=
  let second := if t.nano < 1000000000 then t.second else t.second + 1
  padded 2 t.hour ++ ':' :: (padded 2 t.minute ++ ':' :: padded 2 second)

/-- As few places of the second as hold the value: none, three, six or nine. -/
def fraction (t : Instant) : List Char :=
  let nano := t.nano % 1000000000
  if nano = 0 then []
  else if nano % 1000000 = 0 then '.' :: padded 3 (nano / 1000000)
  else if nano % 1000 = 0 then '.' :: padded 6 (nano / 1000)
  else '.' :: padded 9 nano

/-- Date and time in UTC. -/
def render (t : Instant) : String :=
  String.ofList (t.dateDigits ++ 'T' :: (t.timeDigits ++ (t.fraction ++ ['Z'])))

/-- Date and time in UTC with three places, where the rest is cut off. -/
def renderMillis (t : Instant) : String :=
  String.ofList (t.dateDigits ++ 'T' ::
    (t.timeDigits ++ '.' :: (padded 3 (t.nano % 1000000000 / 1000000) ++ ['Z'])))

/-- Date and time of day on a calendar and a clock, to the second. -/
def renderLocal (t : Instant) : String :=
  String.ofList (t.dateDigits ++ ' ' :: t.timeDigits)

end Instant

end Ensemble
