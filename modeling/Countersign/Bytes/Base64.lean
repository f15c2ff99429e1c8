import Countersign.Bytes.Hex

/-! Base64 text with the standard alphabet. Three bytes are four letters; the last group is
filled up with `=`, and the bits that its padding leaves over are zero. -/

namespace Countersign.Base64

def letter (n : Nat) : Char :=
  if n < 26 then Char.ofNat ('A'.toNat + n)
  else if n < 52 then Char.ofNat ('a'.toNat + (n - 26))
  else if n < 62 then Char.ofNat ('0'.toNat + (n - 52))
  else if n = 62 then '+' else '/'

def value? (c : Char) : Option Nat :=
  if 'A' ≤ c ∧ c ≤ 'Z' then some (c.toNat - 'A'.toNat)
  else if 'a' ≤ c ∧ c ≤ 'z' then some (c.toNat - 'a'.toNat + 26)
  else if '0' ≤ c ∧ c ≤ '9' then some (c.toNat - '0'.toNat + 52)
  else if c = '+' then some 62
  else if c = '/' then some 63
  else none

def encode : Bytes → List Char
  | [] => []
  | [a] => [letter (a.toNat / 4), letter (a.toNat % 4 * 16), '=', '=']
  | [a, b] =>
    [letter (a.toNat / 4), letter (a.toNat % 4 * 16 + b.toNat / 16), letter (b.toNat % 16 * 4), '=']
  | a :: b :: c :: rest =>
    letter (a.toNat / 4) :: letter (a.toNat % 4 * 16 + b.toNat / 16) ::
      letter (b.toNat % 16 * 4 + c.toNat / 64) :: letter (c.toNat % 64) :: encode rest

/-- The two bytes of a last group with one `=`, whose last letter holds four bits. -/
def lastTwo? (p q r : Char) : Option Bytes := do
  let a ← value? p
  let b ← value? q
  let c ← value? r
  if c % 4 = 0 then
    return [UInt8.ofNat (a * 4 + b / 16), UInt8.ofNat (b % 16 * 16 + c / 4)]
  else none

/-- The byte of a last group with two `=`, whose last letter holds two bits. -/
def lastOne? (p q : Char) : Option Bytes := do
  let a ← value? p
  let b ← value? q
  if b % 16 = 0 then return [UInt8.ofNat (a * 4 + b / 16)] else none

def decode? : List Char → Option Bytes
  | [] => some []
  | [p, q, '=', '='] => lastOne? p q
  | [p, q, r, '='] => lastTwo? p q r
  | p :: q :: r :: s :: rest => do
    let a ← value? p
    let b ← value? q
    let c ← value? r
    let d ← value? s
    let bytes ← decode? rest
    return UInt8.ofNat (a * 4 + b / 16) :: UInt8.ofNat (b % 16 * 16 + c / 4) ::
      UInt8.ofNat (c % 4 * 64 + d) :: bytes
  | _ => none

end Countersign.Base64
