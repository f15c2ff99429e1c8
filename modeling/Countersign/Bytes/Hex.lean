/-! Hexadecimal text: two digits a byte, written in lower case and read in either case. -/

namespace Countersign

abbrev Bytes := List UInt8

namespace Hex

def digit? (c : Char) : Option Nat :=
  if '0' ≤ c ∧ c ≤ '9' then some (c.toNat - '0'.toNat)
  else if 'a' ≤ c ∧ c ≤ 'f' then some (c.toNat - 'a'.toNat + 10)
  else if 'A' ≤ c ∧ c ≤ 'F' then some (c.toNat - 'A'.toNat + 10)
  else none

def isDigit (c : Char) : Bool := (digit? c).isSome

def encode : Bytes → List Char
  | [] => []
  | b :: rest => Nat.digitChar (b.toNat / 16) :: Nat.digitChar (b.toNat % 16) :: encode rest

def decode? : List Char → Option Bytes
  | [] => some []
  | [_] => none
  | h :: l :: rest => do
    let high ← digit? h
    let low ← digit? l
    let bytes ← decode? rest
    return UInt8.ofNat (16 * high + low) :: bytes

/-- The place of the first character that is no digit, and that character. -/
def firstStray? (s : List Char) : Option (Nat × Char) := do
  let place ← s.findIdx? (!isDigit ·)
  return (place, ← s[place]?)

/-- The digits of `bytes` after `0x`. -/
def prefixed (bytes : Bytes) : String := String.ofList ('0' :: 'x' :: encode bytes)

/-- What follows a leading `0x` or `0X`, if there is one. -/
def unprefixed? : List Char → Option (List Char)
  | '0' :: 'x' :: rest => some rest
  | '0' :: 'X' :: rest => some rest
  | _ => none

/-- The text with one leading `0x` or `0X` taken off. -/
def bare (s : List Char) : List Char := (unprefixed? s).getD s

end Hex
end Countersign
