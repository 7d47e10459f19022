/-!
# Base64

The standard alphabet with padding. Reading is strict: every group has four symbols, padding stands
at the end only, and the bits that it leaves over are zero, so each byte string has one spelling,
which `encode` writes.
-/

namespace Ensemble.Base64

/-- Why a text is not base64. Offsets count bytes. -/
inductive Fault
  | symbol (byte : UInt8) (offset : Nat)
  | length (n : Nat)
  | padding
  | lastSymbol (byte : UInt8) (offset : Nat)
deriving DecidableEq, Repr

def Fault.message : Fault → String
  | .symbol byte offset => s!"Invalid symbol {byte.toNat}, offset {offset}."
  | .length n => s!"Invalid input length: {n}"
  | .padding => "Invalid padding"
  | .lastSymbol byte offset => s!"Invalid last symbol {byte.toNat}, offset {offset}."

/-- The padding symbol. -/
def pad : UInt8 := 61

/-- The six bits that a symbol stands for. -/
def value? (b : UInt8) : Option Nat :=
  if 65 ≤ b && b ≤ 90 then some (b.toNat - 65)
  else if 97 ≤ b && b ≤ 122 then some (b.toNat - 97 + 26)
  else if 48 ≤ b && b ≤ 57 then some (b.toNat - 48 + 52)
  else if b == 43 then some 62
  else if b == 47 then some 63
  else none

/-- The symbol of six bits. -/
def symbol (n : Nat) : UInt8 :=
  if n < 26 then UInt8.ofNat (n + 65)
  else if n < 52 then UInt8.ofNat (n - 26 + 97)
  else if n < 62 then UInt8.ofNat (n - 52 + 48)
  else if n = 62 then 43
  else 47

/-! ## Writing -/

def encode : List UInt8 → List UInt8
  | [] => []
  | [a] => [symbol (a.toNat / 4), symbol (a.toNat % 4 * 16), pad, pad]
  | [a, b] =>
    [symbol (a.toNat / 4), symbol (a.toNat % 4 * 16 + b.toNat / 16), symbol (b.toNat % 16 * 4), pad]
  | a :: b :: c :: rest =>
    symbol (a.toNat / 4) :: symbol (a.toNat % 4 * 16 + b.toNat / 16)
      :: symbol (b.toNat % 16 * 4 + c.toNat / 64) :: symbol (c.toNat % 64) :: encode rest

/-! ## Reading -/

/-- The six bits of the symbol at an offset. -/
def valueAt (offset : Nat) (b : UInt8) : Except Fault Nat :=
  match value? b with
  | some n => .ok n
  | none => .error (.symbol b offset)

/-- Three bytes of twenty-four bits. -/
def bytes (a b c d : Nat) : List UInt8 :=
  [UInt8.ofNat (a * 4 + b / 16), UInt8.ofNat (b % 16 * 16 + c / 4), UInt8.ofNat (c % 4 * 64 + d)]

/-- The symbols of the last group, before its padding: `place` counts the symbols read so far,
`padded` is the offset of the first padding symbol. -/
def lastValues (start place : Nat) (padded : Option Nat) : List UInt8 → Except Fault (List Nat)
  | [] => .ok []
  | b :: rest =>
    if b = pad then
      if place < 2 then .error (.symbol b (start + place))
      else lastValues start (place + 1) (padded <|> some (start + place)) rest
    else
      match padded with
      | some offset => .error (.symbol pad offset)
      | none => do
        let n ← valueAt (start + place) b
        let ns ← lastValues start (place + 1) none rest
        return n :: ns

/-- The last group, which has one to four symbols. -/
def decodeLast (start : Nat) (group : List UInt8) : Except Fault (List UInt8) := do
  let values ← lastValues start 0 none group
  let leftOver : Except Fault Unit :=
    .error (.lastSymbol (group.getD (values.length - 1) 0) (start + values.length - 1))
  if values.length < 2 then throw (.length (start + values.length))
  if group.length < 4 then throw .padding
  match values with
  | [a, b] =>
    if b % 16 ≠ 0 then leftOver
    return (bytes a b 0 0).take 1
  | [a, b, c] =>
    if c % 4 ≠ 0 then leftOver
    return (bytes a b c 0).take 2
  | [a, b, c, d] => return bytes a b c d
  | _ => throw .padding

/-- Groups of four symbols from an offset on. -/
def decodeFrom (start : Nat) : List UInt8 → Except Fault (List UInt8)
  | a :: b :: c :: d :: e :: rest => do
    let a ← valueAt start a
    let b ← valueAt (start + 1) b
    let c ← valueAt (start + 2) c
    let d ← valueAt (start + 3) d
    let others ← decodeFrom (start + 4) (e :: rest)
    return bytes a b c d ++ others
  | [] => .ok []
  | group => decodeLast start group

/-- The bytes of a base64 text. A single symbol too many is faulted first if it is none. -/
def decode (text : List UInt8) : Except Fault (List UInt8) :=
  match text.getLast? with
  | some b =>
    if text.length % 4 = 1 ∧ b ≠ pad ∧ value? b = none then .error (.symbol b (text.length - 1))
    else decodeFrom 0 text
  | none => .ok []

end Ensemble.Base64
