/-!
# Reading decimals as doubles

`Lexeme` is a decimal split into its parts. `nearest` is the double closest to it. `scaled` is what
the readers of JSON texts take instead: as many leading digits as fit into 64 bits, rounded to a
double, and then one multiplication or division by a power of ten. It refuses an infinite result.
-/

namespace Ensemble.Decimal

/-- The largest unsigned number of 64 bits. -/
def maxUnsigned : Nat := UInt64.size - 1

def digitValue (c : Char) : Nat := c.toNat - '0'.toNat

/-- The number that digits stand for. -/
def ofDigits (cs : List Char) : Nat := cs.foldl (fun n c => n * 10 + digitValue c) 0

/-- A decimal with its sign, the digits around the point and the exponent. -/
structure Lexeme where
  negative : Bool
  whole : List Char
  places : List Char := []
  exponent : Int := 0
deriving DecidableEq, Repr

namespace Lexeme

/-- The closest double, infinite where no finite one is close. -/
def nearest (x : Lexeme) : Float :=
  let digits := (x.whole ++ x.places).dropWhile (· == '0')
  let place := x.exponent - x.places.length
  let magnitude : Float :=
    if digits.isEmpty then 0
    else if 400 < place + digits.length then 1 / 0
    else if place + digits.length < -400 then 0
    else Float.ofScientific (ofDigits digits) (place < 0) place.natAbs
  if x.negative then -magnitude else magnitude

/-- Takes digits while the number they form fits into 64 bits. -/
def leadingDigits (n : Nat) : List Char → Nat × List Char
  | [] => (n, [])
  | c :: cs =>
    if n * 10 + digitValue c ≤ maxUnsigned then leadingDigits (n * 10 + digitValue c) cs
    else (n, c :: cs)

/-- The digits that count, and the power of ten that they are counted in. -/
def significand (x : Lexeme) : Nat × Int :=
  match leadingDigits 0 x.whole with
  | (n, []) =>
    let (n, dropped) := leadingDigits n x.places
    (n, x.exponent - (x.places.length - dropped.length : Nat))
  | (n, dropped) =>
    let (n, rest) := leadingDigits n x.places
    (n, x.exponent + dropped.length - (x.places.length - rest.length : Nat))

private def powerOfTen (n : Nat) : Float := Float.ofScientific 1 false n

/-- Scales a number, in steps of `10 ^ 308` where the exponent is larger than that. -/
def scale : Nat → Float → Int → Option Float
  | 0, f, _ => some f
  | fuel + 1, f, exponent =>
    if exponent.natAbs ≤ 308 then
      if 0 ≤ exponent then
        let f := f * powerOfTen exponent.natAbs
        if f.isInf then none else some f
      else some (f / powerOfTen exponent.natAbs)
    else if f == 0 then some f
    else if 0 ≤ exponent then none
    else scale fuel (f / powerOfTen 308) (exponent + 308)

/-- The double that a JSON text means, if it is finite. -/
def scaled? (x : Lexeme) : Option Float :=
  let (n, exponent) := x.significand
  (scale 8 n.toUInt64.toFloat exponent).map fun f => if x.negative then -f else f

end Lexeme

/-! ## Decimals in texts -/

private def lower (cs : List Char) : List Char := cs.map Char.toLower

/-- The exponent that may follow the digits of a decimal. -/
def exponentOf? : List Char → Option Int
  | [] => some 0
  | e :: cs =>
    if e ≠ 'e' ∧ e ≠ 'E' then none
    else
      let (negative, digits) := match cs with
        | '-' :: ds => (true, ds)
        | '+' :: ds => (false, ds)
        | ds => (false, ds)
      if digits.isEmpty || !digits.all Char.isDigit then none
      else some (if negative then -(ofDigits digits : Int) else ofDigits digits)

/-- A decimal text: a sign, digits with a point anywhere among them, an exponent. -/
def lexeme? (cs : List Char) : Option Lexeme :=
  let (negative, cs) := match cs with
    | '-' :: cs => (true, cs)
    | '+' :: cs => (false, cs)
    | cs => (false, cs)
  let whole := cs.takeWhile Char.isDigit
  let (places, rest) := match cs.dropWhile Char.isDigit with
    | '.' :: cs => (cs.takeWhile Char.isDigit, cs.dropWhile Char.isDigit)
    | cs => ([], cs)
  if whole.isEmpty && places.isEmpty then none
  else (exponentOf? rest).map fun exponent => { negative, whole, places, exponent }

/-- The double of a decimal text, or of one of the words for infinity and for no number. -/
def double? (cs : List Char) : Option Float :=
  match lexeme? cs with
  | some x => some x.nearest
  | none =>
    let word := match cs with
      | '-' :: cs => cs
      | '+' :: cs => cs
      | cs => cs
    if lower word == "nan".toList then some (0 / 0)
    else if lower word == "inf".toList || lower word == "infinity".toList then
      some (if cs.head? == some '-' then -(1 / 0) else 1 / 0)
    else none

end Ensemble.Decimal
