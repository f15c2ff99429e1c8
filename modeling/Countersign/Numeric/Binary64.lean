import Countersign.Json.Record

/-! Decimal literals as binary floating point numbers of 64 bits. The leading digits that fit a
64-bit number are kept, and the power of ten is applied to them by one rounded product or
quotient for each factor of at most ten to the 308; ties go to the even neighbour. -/

namespace Countersign

/-- A floating point number by its bits. -/
structure Binary64 where
  bits : UInt64
  deriving DecidableEq, Repr

namespace Binary64

/-- A finite number that is not negative: `mantissa * 2 ^ exponent`. -/
structure Finite where
  mantissa : Nat
  exponent : Int

/-- The quotient of two numbers rounded to the nearest, a tie to the even one. -/
def roundDiv (a b : Nat) : Nat :=
  let q := a / b
  let r := a % b
  if 2 * r < b then q else if b < 2 * r then q + 1 else q + q % 2

/-- The power of two that the last bit of a rounded `num / den` stands for. -/
def lastPlace (num den : Nat) : Int :=
  let guess := (Nat.log2 num : Int) - (Nat.log2 den : Int)
  let top := if num <<< (-guess).toNat < den <<< guess.toNat then guess - 1 else guess
  max (top - 52) (-1074)

/-- The nearest finite number to `num / den`, or `none` beyond the greatest. -/
def nearest? (num den : Nat) : Option Finite :=
  if num = 0 then some ⟨0, 0⟩
  else
    let place := lastPlace num den
    let m := roundDiv (num <<< (-place).toNat) (den <<< place.toNat)
    if 1 <<< 1024 ≤ m <<< place.toNat then none else some ⟨m, place⟩

namespace Finite

/-- The rounded product with a power of ten of at most 308 digits, itself rounded. -/
def timesPower? (f : Finite) (n : Nat) : Option Finite := do
  let p ← nearest? (Nat.pow 10 n) 1
  let e := f.exponent + p.exponent
  nearest? ((f.mantissa * p.mantissa) <<< e.toNat) (1 <<< (-e).toNat)

def overPower? (f : Finite) (n : Nat) : Option Finite := do
  let p ← nearest? (Nat.pow 10 n) 1
  let e := f.exponent - p.exponent
  nearest? (f.mantissa <<< e.toNat) (p.mantissa <<< (-e).toNat)

def bits (f : Finite) : UInt64 :=
  if f.mantissa = 0 then 0
  else
    -- moved up as far as the place of the last bit allows
    let shift := min (52 - Nat.log2 f.mantissa) (f.exponent + 1074).toNat
    let m := f.mantissa <<< shift
    let place := f.exponent - shift
    if m < 1 <<< 52 then UInt64.ofNat m
    else UInt64.ofNat ((place + 1075).toNat <<< 52 + (m - 1 <<< 52))

end Finite

/-- Divides by ten to the 308 until the rest of the exponent is small enough. -/
def scaleDown? : Nat → Finite → Nat → Option Finite
  | 0, f, _ => some f
  | fuel + 1, f, n =>
    if n ≤ 308 then f.overPower? n
    else if f.mantissa = 0 then some f
    else (f.overPower? 308).bind fun f => scaleDown? fuel f (n - 308)

/-- The leading digits `significand` times a power of ten. -/
def scaled? (significand : Nat) (exponent : Int) : Option Finite := do
  let f ← nearest? significand 1
  if exponent < 0 then scaleDown? ((-exponent).toNat / 308 + 1) f (-exponent).toNat
  else if exponent ≤ 308 then f.timesPower? exponent.toNat
  else if significand = 0 then return f
  else none

/-- Takes digits into a significand while it fits 64 bits. -/
def takeDigits (significand : Nat) : List Nat → Nat × List Nat
  | [] => (significand, [])
  | d :: rest =>
    if 10 * significand + d < 1 <<< 64 then takeDigits (10 * significand + d) rest
    else (significand, d :: rest)

structure Literal where
  negative : Bool
  whole : List Nat
  fraction : Option (List Nat)
  exponent : Option (Bool × List Nat)

def digitsOf (bytes : Bytes) : List Nat := bytes.map fun b => b.toNat - 0x30

def Literal.ofBytes (bytes : Bytes) : Literal :=
  let negative := bytes.head? == some 0x2d
  let unsigned := if negative then bytes.drop 1 else bytes
  let digits := unsigned.takeWhile Json.isDigit
  let rest := unsigned.dropWhile Json.isDigit
  let fraction := if rest.head? == some 0x2e then some ((rest.drop 1).takeWhile Json.isDigit) else none
  let rest := if fraction.isSome then (rest.drop 1).dropWhile Json.isDigit else rest
  { negative
    whole := digitsOf digits
    fraction := fraction.map digitsOf
    exponent := match rest with
      | _ :: sign :: digits => some (sign == 0x2d, digitsOf digits)
      | _ => none }

def natural (digits : List Nat) : Nat := digits.foldl (fun n d => 10 * n + d) 0

/-- The size of a literal. Digits of the whole part that no longer fit count as factors of ten,
those of the fraction are dropped. -/
def Literal.size? (l : Literal) : Option Finite := do
  let (significand, dropped) := takeDigits 0 l.whole
  let before : Int := dropped.length
  let (significand, after) : Nat × Int := match l.fraction with
    | none => (significand, 0)
    | some digits =>
      let (s, left) := takeDigits significand digits
      (s, (digits.length : Int) - left.length)
  match l.exponent with
  | none =>
    if dropped.isEmpty && l.fraction.isNone then nearest? significand 1
    else scaled? significand (before - after)
  | some (down, digits) =>
    let e := natural digits
    if 1 <<< 31 ≤ e then
      if significand = 0 ∨ down then return ⟨0, 0⟩ else none
    else scaled? significand (before - after + (if down then -(e : Int) else e))

/-- The nearest size, with one rounding for all digits. Sizes far out of range are not worked out. -/
def Literal.nearest? (l : Literal) : Option Finite :=
  let digits := l.whole ++ l.fraction.getD []
  let shift : Int := match l.exponent with
    | none => 0
    | some (down, e) => if down then -(natural e : Int) else natural e
  let e := shift - (l.fraction.getD []).length
  if natural digits = 0 ∨ e < -(400 + digits.length : Int) then some ⟨0, 0⟩
  else if 400 < e then none
  else Binary64.nearest? (natural digits * Nat.pow 10 e.toNat) (Nat.pow 10 (-e).toNat)

/-- The number that a JSON number denotes, its size found by `size?`. -/
def ofNumber? (size? : Literal → Option Finite) : Json → Option Binary64
  | .natural n => do
    let f ← size? (Literal.mk false ((Text.decimal n).map fun c => c.toNat - 0x30) none none)
    return ⟨f.bits⟩
  | .number literal => do
    let l := Literal.ofBytes literal
    let f ← size? l
    return ⟨f.bits ||| (if l.negative then 0x8000000000000000 else 0)⟩
  | _ => none

/-- The number that a JSON number denotes where numbers are read step by step, unless it is out of
range. -/
def ofJson? (j : Json) : Option Binary64 := ofNumber? Literal.size? j

/-- The number nearest to a JSON number, unless it is out of range. -/
def nearestJson? (j : Json) : Option Binary64 := ofNumber? Literal.nearest? j

end Binary64
end Countersign
