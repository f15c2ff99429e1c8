/-! Polynomials of 256 coefficients modulo a prime, and the transform that turns their product into
a product of coefficients. -/

namespace Countersign.Lattice

def modulus : Nat := 8380417

/-- A polynomial by its coefficients, each less than the modulus, lowest degree first. -/
abbrev Poly := Array Nat

namespace Poly

def zero : Poly := Array.replicate 256 0

def add (p r : Poly) : Poly := Array.zipWith (fun a b => (a + b) % modulus) p r

def sub (p r : Poly) : Poly := Array.zipWith (fun a b => (a + modulus - b) % modulus) p r

/-- The product coefficient by coefficient, which multiplies two transformed polynomials. -/
def mul (p r : Poly) : Poly := Array.zipWith (fun a b => a * b % modulus) p r

def scale (c : Nat) (p : Poly) : Poly := p.map fun a => c * a % modulus

end Poly

def rootPower : Nat → Nat
  | 0 => 1
  | n + 1 => 1753 * rootPower n % modulus

def reverseBits (n : Nat) : Nat :=
  (List.range 8).foldl (fun m i => 2 * m + n >>> i % 2) 0

/-- The factor of each node of the transform's tree; the children of node `k` are `2 * k` and
`2 * k + 1`, and the root is node 1. -/
def factors : Array Nat := (Array.range 256).map fun k => rootPower (reverseBits k)

def inverseFactors : Array Nat := (Array.range 256).map fun k => rootPower (512 - reverseBits k)

/-- The transform of a polynomial of `2 ^ depth` coefficients below node `k`. -/
def transformFrom : Nat → Nat → Poly → Poly
  | 0, _, p => p
  | depth + 1, k, p =>
    let half := p.size / 2
    let low := p.extract 0 half
    let high := Poly.scale (factors.getD k 0) (p.extract half p.size)
    transformFrom depth (2 * k) (Poly.add low high) ++
      transformFrom depth (2 * k + 1) (Poly.sub low high)

def inverseFrom : Nat → Nat → Poly → Poly
  | 0, _, p => p
  | depth + 1, k, p =>
    let half := p.size / 2
    let left := inverseFrom depth (2 * k) (p.extract 0 half)
    let right := inverseFrom depth (2 * k + 1) (p.extract half p.size)
    left.add right ++ (left.sub right).scale (inverseFactors.getD k 0)

def Poly.transform (p : Poly) : Poly := transformFrom 8 1 p

/-- Undoes the transform; the last factor is the inverse of 256. -/
def Poly.inverse (p : Poly) : Poly := (inverseFrom 8 1 p).scale 8347681

/-- The sum of products of two rows of transformed polynomials. -/
def dot (row v : List Poly) : Poly := (List.zipWith Poly.mul row v).foldl Poly.add Poly.zero

/-- A matrix of transformed polynomials times a transformed vector, transformed back. -/
def matrixTimes (rows : List (List Poly)) (v : List Poly) : List Poly :=
  rows.map fun row => (dot row v).inverse

end Countersign.Lattice
