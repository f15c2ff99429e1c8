import Countersign.Lattice.Level

/-! Coefficients as signed numbers, and how a coefficient is split into a high part that is
published and a low part that is not. -/

namespace Countersign.Lattice

/-- The representative of `a` modulo `m` that is nearest to zero; a half counts as positive. -/
def centered (a m : Nat) : Int :=
  let r := a % m
  if r ≤ m / 2 then r else (r : Int) - m

def ofSigned (a : Int) : Nat := (a % (modulus : Int)).toNat

def magnitude (a : Nat) : Nat := min a (modulus - a)

def Poly.norm (p : Poly) : Nat := p.foldl (fun m a => max m (magnitude a)) 0

def norm (v : List Poly) : Nat := v.foldl (fun m p => max m p.norm) 0

/-- Splits off the lowest thirteen bits, as a signed number. -/
def splitPower (a : Nat) : Nat × Int :=
  let low := centered a 8192
  ((((a : Int) - low) / 8192).toNat, low)

/-- The high part of a coefficient and what is left; the topmost step wraps around to zero. -/
def Level.split (level : Level) (a : Nat) : Nat × Int :=
  let step := 2 * level.lowRange
  let low := centered a step
  if (a : Int) - low = (modulus : Int) - 1 then (0, low - 1)
  else ((((a : Int) - low) / step).toNat, low)

def Level.high (level : Level) (a : Nat) : Nat := (level.split a).1

/-- Whether adding `z` to `r` changes the high part. -/
def Level.hint (level : Level) (z r : Nat) : Bool :=
  level.high r != level.high ((r + z) % modulus)

/-- The high part that a hint points to. -/
def Level.useHint (level : Level) (hint : Bool) (r : Nat) : Nat :=
  let (high, low) := level.split r
  if !hint then high
  else if 0 < low then (high + 1) % level.highValues
  else (high + level.highValues - 1) % level.highValues

end Countersign.Lattice
