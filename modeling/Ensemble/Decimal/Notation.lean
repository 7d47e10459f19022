/-!
# Writing numbers

Natural numbers and integers are written in decimal. A double is written with its shortest digits
and always shows that it is one: positionally with at least one place (`1.0`, `0.00001`), or with
an exponent (`1e-7`, `1.5e+21`) where its size is outside of `1e-5` to `1e16`.

A double stands for every real number that rounds to it. `shortest` gives the decimal with the
fewest digits among those, and of two such decimals the one nearer to the double. Everything is
done in natural numbers: the double and the ends of its interval are written as quarters of the
last place, and a grid of `n` digits is searched at the two points around the value.
-/

namespace Ensemble.Decimal

/-! ## Shortest digits -/

/-- A positive double as `mantissa * 2 ^ exponent`; `isPower` tells that the next smaller double
is only half as far away as the next larger one. -/
structure Binary where
  mantissa : Nat
  exponent : Int
  isPower : Bool
deriving DecidableEq, Repr

def Binary.ofBits (bits : UInt64) : Binary :=
  let field : Nat := bits.toNat / Nat.pow 2 52 % Nat.pow 2 11
  let fraction : Nat := bits.toNat % Nat.pow 2 52
  if field = 0 then { mantissa := fraction, exponent := -1074, isPower := false }
  else
    { mantissa := Nat.pow 2 52 + fraction, exponent := (field : Int) - 1075
      isPower := fraction = 0 && 1 < field }

def isNegative (bits : UInt64) : Bool := Nat.pow 2 63 ≤ bits.toNat

def isFinite (bits : UInt64) : Bool := bits.toNat / Nat.pow 2 52 % Nat.pow 2 11 ≠ 2047

namespace Binary

/-- `2 ^ (exponent - 2)`, the size of a quarter of the last place, as a fraction. -/
def quarter (b : Binary) : Nat × Nat :=
  if 2 ≤ b.exponent then (Nat.pow 2 (b.exponent - 2).toNat, 1)
  else (1, Nat.pow 2 (2 - b.exponent).toNat)

/-- The exponent of the leading decimal digit. -/
def leading (b : Binary) : Int :=
  let (up, down) := b.quarter
  ((Nat.toDigits 10 (4 * b.mantissa * up * Nat.pow 10 350 / down)).length : Int) - 351

/-- The point of the grid `d * 10 ^ place` nearest to the value, if one reads back as the value. -/
def onGrid? (b : Binary) (place : Int) : Option Nat :=
  let (up, down) := b.quarter
  let up := up * Nat.pow 10 (-place).toNat
  let down := down * Nat.pow 10 place.toNat
  let value := 4 * b.mantissa * up
  let low := (4 * b.mantissa - if b.isPower then 1 else 2) * up
  let high := (4 * b.mantissa + 2) * up
  let readsBack (d : Nat) : Bool :=
    if b.mantissa % 2 = 0 then low ≤ d * down && d * down ≤ high
    else low < d * down && d * down < high
  let floor := value / down
  let nearer := if 2 * (value % down) < down || (2 * (value % down) = down && floor % 2 = 0)
    then floor else floor + 1
  let other := if nearer = floor then floor + 1 else floor
  if readsBack nearer then some nearer else if readsBack other then some other else none

/-- Tries one digit, then two, up to the seventeen that always suffice. -/
def search (b : Binary) : Nat → Nat → Nat × Int
  | 0, n => ((b.onGrid? (b.leading + 1 - n)).getD 0, b.leading + 1 - n)
  | more + 1, n =>
    match b.onGrid? (b.leading + 1 - n) with
    | some d => (d, b.leading + 1 - n)
    | none => search b more (n + 1)

end Binary

/-- The digits `d` and the place `k` of the shortest decimal `d * 10 ^ k` of a positive double. -/
def shortest (bits : UInt64) : Nat × Int := (Binary.ofBits bits).search 16 1

/-- Moves trailing zeros of the digits into the place. -/
def dropZeros : Nat → Nat × Int → Nat × Int
  | 0, d => d
  | fuel + 1, (d, k) => if d ≠ 0 ∧ d % 10 = 0 then dropZeros fuel (d / 10, k + 1) else (d, k)

/-! ## Notation -/

def natural (n : Nat) : List Char := Nat.toDigits 10 n

def integer : Int → List Char
  | .ofNat n => natural n
  | .negSucc n => '-' :: natural (n + 1)

/-- Digits before and after the point when the leading one stands for `10 ^ leading`. -/
def positional (digits : List Char) (leading : Int) : List Char :=
  if leading < 0 then
    '0' :: '.' :: (List.replicate (-leading - 1).toNat '0' ++ digits)
  else
    let whole := leading.toNat + 1
    let places := digits.drop whole
    (digits ++ List.replicate (whole - digits.length) '0').take whole
      ++ '.' :: (if places.isEmpty then ['0'] else places)

def scientific (digits : List Char) (leading : Int) : List Char :=
  let exponent := (if leading < 0 then '-' else '+') :: natural leading.natAbs
  match digits with
  | [] => []
  | [d] => d :: 'e' :: exponent
  | d :: rest => d :: '.' :: (rest ++ 'e' :: exponent)

/-- A finite double. -/
def double (bits : UInt64) : List Char :=
  let magnitude :=
    if bits.toNat % Nat.pow 2 63 = 0 then ['0', '.', '0']
    else
      let (d, place) := dropZeros 20 (shortest bits)
      let digits := natural d
      let leading := place + digits.length - 1
      if -5 ≤ leading && leading ≤ 15 then positional digits leading
      else scientific digits leading
  if isNegative bits then '-' :: magnitude else magnitude

end Ensemble.Decimal
