import Ensemble.Json.Basic
import Ensemble.Decimal.Notation

/-!
# Writing JSON

Values are written without blanks. Of the characters of a string only the quote, the backslash and
the control characters below U+0020 are escaped, and only the latter need digits.
-/

namespace Ensemble.Json

def hexDigit (n : Nat) : Char := Nat.digitChar n

/-- One character of a string. -/
def escape (c : Char) : List Char :=
  if c = '"' then ['\\', '"']
  else if c = '\\' then ['\\', '\\']
  else if c = '\x08' then ['\\', 'b']
  else if c = '\x0c' then ['\\', 'f']
  else if c = '\n' then ['\\', 'n']
  else if c = '\r' then ['\\', 'r']
  else if c = '\t' then ['\\', 't']
  else if c.toNat < 0x20 then
    ['\\', 'u', '0', '0', hexDigit (c.toNat / 16), hexDigit (c.toNat % 16)]
  else [c]

def escapeAll : List Char → List Char
  | [] => []
  | c :: cs => escape c ++ escapeAll cs

def quoted (s : String) : List Char := '"' :: (escapeAll s.toList ++ ['"'])

def numeral : Number → List Char
  | .int i => Decimal.integer i
  | .double bits => Decimal.double bits

mutual

def compact : Json → List Char
  | .null => ['n', 'u', 'l', 'l']
  | .bool true => ['t', 'r', 'u', 'e']
  | .bool false => ['f', 'a', 'l', 's', 'e']
  | .number n => numeral n
  | .string s => quoted s
  | .array [] => ['[', ']']
  | .array (v :: rest) => '[' :: (compact v ++ compactItems rest)
  | .object [] => ['{', '}']
  | .object ((k, v) :: rest) => '{' :: (quoted k ++ ':' :: (compact v ++ compactFields rest))

/-- The items of an array after its first one, and the bracket. -/
def compactItems : List Json → List Char
  | [] => [']']
  | v :: rest => ',' :: (compact v ++ compactItems rest)

/-- The fields of an object after its first one, and the brace. -/
def compactFields : List (String × Json) → List Char
  | [] => ['}']
  | (k, v) :: rest => ',' :: (quoted k ++ ':' :: (compact v ++ compactFields rest))

end

/-- The text of a value. -/
def render (v : Json) : String := String.ofList v.compact

/-- A string as it is, any other value as its JSON text. -/
def plain : Json → String
  | .string s => s
  | v => v.render

end Ensemble.Json
