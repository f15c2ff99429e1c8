import Countersign.Lattice.Packing
import Countersign.Sponge.Hash

/-! Polynomials drawn from output streams. Candidates that are out of range are passed over, so
the number of blocks that are read is not fixed; it is bounded far above what ever occurs. -/

namespace Countersign.Lattice

open Sponge (Stream shake128 shake256)

/-- The first `count` candidates that `candidates` finds in at most `blocks` blocks. -/
def draw (candidates : Bytes → List Nat) : Nat → Nat → Stream → List Nat
  | 0, _, _ => []
  | blocks + 1, count, stream =>
    let found := candidates stream.block
    if count ≤ found.length then found.take count
    else found ++ draw candidates blocks (count - found.length) stream.next

/-- The coefficients written by three bytes each, of which the topmost bit is dropped. -/
def uniformCandidates : Bytes → List Nat
  | a :: b :: c :: rest =>
    let z := a.toNat + 256 * b.toNat + 65536 * (c.toNat % 128)
    if z < modulus then z :: uniformCandidates rest else uniformCandidates rest
  | _ => []

def uniformPoly (seed : Bytes) : Poly :=
  (draw uniformCandidates 64 256 (shake128 seed)).toArray

/-- The secret coefficient that half a byte stands for. -/
def secretCandidate? (level : Level) (z : Nat) : Option Nat :=
  if level.secretBound = 2 then
    if z < 15 then some ((2 + modulus - z % 5) % modulus) else none
  else if z < 9 then some ((4 + modulus - z) % modulus) else none

def secretCandidates (level : Level) (bytes : Bytes) : List Nat :=
  (bytes.flatMap fun b => [b.toNat % 16, b.toNat / 16]).filterMap (secretCandidate? level)

def secretPoly (level : Level) (seed : Bytes) : Poly :=
  (draw (secretCandidates level) 64 256 (shake256 seed)).toArray

/-- A number below 65536 as two bytes, least significant first. -/
def twoBytes (n : Nat) : Bytes := [UInt8.ofNat (n % 256), UInt8.ofNat (n / 256)]

def publicMatrix (level : Level) (seed : Bytes) : List (List Poly) :=
  (List.range level.rows).map fun r => (List.range level.columns).map fun s =>
    uniformPoly (seed ++ [UInt8.ofNat s, UInt8.ofNat r])

def secretVector (level : Level) (seed : Bytes) (start count : Nat) : List Poly :=
  (List.range count).map fun i => secretPoly level (seed ++ twoBytes (start + i))

def maskVector (level : Level) (seed : Bytes) (counter : Nat) : List Poly :=
  (List.range level.columns).map fun i =>
    unpackBelow level.maskWidth level.maskRange
      ((shake256 (seed ++ twoBytes (counter + i))).take (32 * level.maskWidth))

/-- Places the signs from the back: each goes where the next byte that is small enough points, and
what stood there moves up. -/
def placeSigns (ball : Poly) (position : Nat) : List Bool → Bytes → Poly
  | sign :: signs, b :: bytes =>
    if b.toNat ≤ position then
      let moved := ball.setIfInBounds position (ball.getD b.toNat 0)
      let placed := moved.setIfInBounds b.toNat (if sign then modulus - 1 else 1)
      placeSigns placed (position + 1) signs bytes
    else placeSigns ball position (sign :: signs) bytes
  | _, _ => ball
termination_by _ bytes => bytes.length

/-- The challenge of a hash: a polynomial with few coefficients, all one or minus one. -/
def challenge (level : Level) (hash : Bytes) : Poly :=
  let bytes := (shake256 hash).blocks 16
  let bits := (toDigits 1 64 (ofDigits 8 ((bytes.take 8).map UInt8.toNat))).map (· == 1)
  placeSigns Poly.zero (256 - level.challengeWeight) (bits.take level.challengeWeight)
    (bytes.drop 8)

end Countersign.Lattice
