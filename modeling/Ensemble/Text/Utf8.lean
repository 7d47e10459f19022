/-!
# Texts and their UTF-8 bytes

Positions in a text are counted in bytes of its UTF-8 form. `splitAt?` cuts a text at such a
position and refuses one inside a character; `decode` reads bytes as a text and says where and how
the first fault arises.
-/

namespace Ensemble.Text

/-- The number of bytes that the characters take. -/
def byteSize : List Char → Nat
  | [] => 0
  | c :: cs => c.utf8Size + byteSize cs

/-- Cuts after `n` bytes, if that is between two characters. -/
def splitAt? : List Char → Nat → Option (List Char × List Char)
  | cs, 0 => some ([], cs)
  | [], _ + 1 => none
  | c :: cs, n + 1 =>
    if c.utf8Size ≤ n + 1 then
      (splitAt? cs (n + 1 - c.utf8Size)).map fun (before, after) => (c :: before, after)
    else none

/-- Whether a position lies in the text and between two characters. -/
def isBoundary (cs : List Char) (n : Nat) : Bool := (splitAt? cs n).isSome

/-! ## Reading bytes -/

/-- Why bytes are not UTF-8: they stop inside a character, or `length` bytes cannot start one. -/
inductive Utf8Fault
  | incomplete (index : Nat)
  | invalid (length index : Nat)
deriving DecidableEq, Repr

def Utf8Fault.message : Utf8Fault → String
  | .incomplete index => s!"incomplete utf-8 byte sequence from index {index}"
  | .invalid length index => s!"invalid utf-8 sequence of {length} bytes from index {index}"

/-- A byte that may only follow another one inside a character. -/
def isContinuation (b : UInt8) : Bool := 0x80 ≤ b && b ≤ 0xBF

/-- The second byte of a three-byte character, which excludes overlong forms and surrogates. -/
def isSecondOfThree (first second : UInt8) : Bool :=
  if first == 0xE0 then 0xA0 ≤ second && second ≤ 0xBF
  else if first == 0xED then 0x80 ≤ second && second ≤ 0x9F
  else isContinuation second

/-- The second byte of a four-byte character, which excludes overlong forms and too large ones. -/
def isSecondOfFour (first second : UInt8) : Bool :=
  if first == 0xF0 then 0x90 ≤ second && second ≤ 0xBF
  else if first == 0xF4 then 0x80 ≤ second && second ≤ 0x8F
  else isContinuation second

private def payload (bits : Nat) (b : UInt8) : Nat := b.toNat % Nat.pow 2 bits

/-- Reads bytes that start at position `i`. -/
def decodeFrom (i : Nat) : List UInt8 → Except Utf8Fault (List Char)
  | [] => .ok []
  | a :: rest =>
    if a < 0x80 then (Char.ofNat a.toNat :: ·) <$> decodeFrom (i + 1) rest
    else if 0xC2 ≤ a && a ≤ 0xDF then
      match rest with
      | [] => .error (.incomplete i)
      | b :: rest =>
        if isContinuation b then
          (Char.ofNat (payload 5 a * 64 + payload 6 b) :: ·) <$> decodeFrom (i + 2) rest
        else .error (.invalid 1 i)
    else if 0xE0 ≤ a && a ≤ 0xEF then
      match rest with
      | [] => .error (.incomplete i)
      | [b] => .error (if isSecondOfThree a b then .incomplete i else .invalid 1 i)
      | b :: c :: rest =>
        if !isSecondOfThree a b then .error (.invalid 1 i)
        else if !isContinuation c then .error (.invalid 2 i)
        else (Char.ofNat ((payload 4 a * 64 + payload 6 b) * 64 + payload 6 c) :: ·)
          <$> decodeFrom (i + 3) rest
    else if 0xF0 ≤ a && a ≤ 0xF4 then
      match rest with
      | [] => .error (.incomplete i)
      | [b] => .error (if isSecondOfFour a b then .incomplete i else .invalid 1 i)
      | [b, c] =>
        .error (if !isSecondOfFour a b then .invalid 1 i
          else if !isContinuation c then .invalid 2 i else .incomplete i)
      | b :: c :: d :: rest =>
        if !isSecondOfFour a b then .error (.invalid 1 i)
        else if !isContinuation c then .error (.invalid 2 i)
        else if !isContinuation d then .error (.invalid 3 i)
        else (Char.ofNat
            (((payload 3 a * 64 + payload 6 b) * 64 + payload 6 c) * 64 + payload 6 d) :: ·)
          <$> decodeFrom (i + 4) rest
    else .error (.invalid 1 i)

/-- Reads bytes as a text. -/
def decode (bytes : List UInt8) : Except Utf8Fault (List Char) := decodeFrom 0 bytes

/-- The bytes of a text. -/
def encode (s : String) : List UInt8 := s.toUTF8.toList

end Ensemble.Text
