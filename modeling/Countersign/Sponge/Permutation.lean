/-! The permutation of sixteen hundred bits that the sponges of this library are built on: five by
five lanes of 64 bits, and 24 rounds over them. -/

namespace Countersign.Sponge

/-- The lane in column `x` and row `y` is `lane (x + 5 * y)`; the rows stand one after another. -/
structure Lanes where
  l0 : UInt64 := 0
  l1 : UInt64 := 0
  l2 : UInt64 := 0
  l3 : UInt64 := 0
  l4 : UInt64 := 0
  l5 : UInt64 := 0
  l6 : UInt64 := 0
  l7 : UInt64 := 0
  l8 : UInt64 := 0
  l9 : UInt64 := 0
  l10 : UInt64 := 0
  l11 : UInt64 := 0
  l12 : UInt64 := 0
  l13 : UInt64 := 0
  l14 : UInt64 := 0
  l15 : UInt64 := 0
  l16 : UInt64 := 0
  l17 : UInt64 := 0
  l18 : UInt64 := 0
  l19 : UInt64 := 0
  l20 : UInt64 := 0
  l21 : UInt64 := 0
  l22 : UInt64 := 0
  l23 : UInt64 := 0
  l24 : UInt64 := 0

def rotate (w : UInt64) (n : UInt64) : UInt64 := (w <<< n) ||| (w >>> (64 - n))

namespace Lanes

/-- One round: columns are mixed, lanes turned and moved, rows combined, and the constant added. -/
def round (s : Lanes) (constant : UInt64) : Lanes :=
  let c0 := s.l0 ^^^ s.l5 ^^^ s.l10 ^^^ s.l15 ^^^ s.l20
  let c1 := s.l1 ^^^ s.l6 ^^^ s.l11 ^^^ s.l16 ^^^ s.l21
  let c2 := s.l2 ^^^ s.l7 ^^^ s.l12 ^^^ s.l17 ^^^ s.l22
  let c3 := s.l3 ^^^ s.l8 ^^^ s.l13 ^^^ s.l18 ^^^ s.l23
  let c4 := s.l4 ^^^ s.l9 ^^^ s.l14 ^^^ s.l19 ^^^ s.l24
  let d0 := c4 ^^^ rotate c1 1
  let d1 := c0 ^^^ rotate c2 1
  let d2 := c1 ^^^ rotate c3 1
  let d3 := c2 ^^^ rotate c4 1
  let d4 := c3 ^^^ rotate c0 1
  let b0 := s.l0 ^^^ d0
  let b1 := rotate (s.l6 ^^^ d1) 44
  let b2 := rotate (s.l12 ^^^ d2) 43
  let b3 := rotate (s.l18 ^^^ d3) 21
  let b4 := rotate (s.l24 ^^^ d4) 14
  let b5 := rotate (s.l3 ^^^ d3) 28
  let b6 := rotate (s.l9 ^^^ d4) 20
  let b7 := rotate (s.l10 ^^^ d0) 3
  let b8 := rotate (s.l16 ^^^ d1) 45
  let b9 := rotate (s.l22 ^^^ d2) 61
  let b10 := rotate (s.l1 ^^^ d1) 1
  let b11 := rotate (s.l7 ^^^ d2) 6
  let b12 := rotate (s.l13 ^^^ d3) 25
  let b13 := rotate (s.l19 ^^^ d4) 8
  let b14 := rotate (s.l20 ^^^ d0) 18
  let b15 := rotate (s.l4 ^^^ d4) 27
  let b16 := rotate (s.l5 ^^^ d0) 36
  let b17 := rotate (s.l11 ^^^ d1) 10
  let b18 := rotate (s.l17 ^^^ d2) 15
  let b19 := rotate (s.l23 ^^^ d3) 56
  let b20 := rotate (s.l2 ^^^ d2) 62
  let b21 := rotate (s.l8 ^^^ d3) 55
  let b22 := rotate (s.l14 ^^^ d4) 39
  let b23 := rotate (s.l15 ^^^ d0) 41
  let b24 := rotate (s.l21 ^^^ d1) 2
  { l0 := b0 ^^^ (~~~b1 &&& b2) ^^^ constant
    l1 := b1 ^^^ (~~~b2 &&& b3)
    l2 := b2 ^^^ (~~~b3 &&& b4)
    l3 := b3 ^^^ (~~~b4 &&& b0)
    l4 := b4 ^^^ (~~~b0 &&& b1)
    l5 := b5 ^^^ (~~~b6 &&& b7)
    l6 := b6 ^^^ (~~~b7 &&& b8)
    l7 := b7 ^^^ (~~~b8 &&& b9)
    l8 := b8 ^^^ (~~~b9 &&& b5)
    l9 := b9 ^^^ (~~~b5 &&& b6)
    l10 := b10 ^^^ (~~~b11 &&& b12)
    l11 := b11 ^^^ (~~~b12 &&& b13)
    l12 := b12 ^^^ (~~~b13 &&& b14)
    l13 := b13 ^^^ (~~~b14 &&& b10)
    l14 := b14 ^^^ (~~~b10 &&& b11)
    l15 := b15 ^^^ (~~~b16 &&& b17)
    l16 := b16 ^^^ (~~~b17 &&& b18)
    l17 := b17 ^^^ (~~~b18 &&& b19)
    l18 := b18 ^^^ (~~~b19 &&& b15)
    l19 := b19 ^^^ (~~~b15 &&& b16)
    l20 := b20 ^^^ (~~~b21 &&& b22)
    l21 := b21 ^^^ (~~~b22 &&& b23)
    l22 := b22 ^^^ (~~~b23 &&& b24)
    l23 := b23 ^^^ (~~~b24 &&& b20)
    l24 := b24 ^^^ (~~~b20 &&& b21) }

def roundConstants : List UInt64 :=
  [0x0000000000000001, 0x0000000000008082, 0x800000000000808a, 0x8000000080008000,
   0x000000000000808b, 0x0000000080000001, 0x8000000080008081, 0x8000000000008009,
   0x000000000000008a, 0x0000000000000088, 0x0000000080008009, 0x000000008000000a,
   0x000000008000808b, 0x800000000000008b, 0x8000000000008089, 0x8000000000008003,
   0x8000000000008002, 0x8000000000000080, 0x000000000000800a, 0x800000008000000a,
   0x8000000080008081, 0x8000000000008080, 0x0000000080000001, 0x8000000080008008]

def permute (s : Lanes) : Lanes := roundConstants.foldl round s

def toList (s : Lanes) : List UInt64 :=
  [s.l0, s.l1, s.l2, s.l3, s.l4,
   s.l5, s.l6, s.l7, s.l8, s.l9,
   s.l10, s.l11, s.l12, s.l13, s.l14,
   s.l15, s.l16, s.l17, s.l18, s.l19,
   s.l20, s.l21, s.l22, s.l23, s.l24]

/-- Adds the lanes of a block to the first lanes of the state. -/
def add (s : Lanes) (block : Array UInt64) : Lanes :=
  { l0 := s.l0 ^^^ block.getD 0 0
    l1 := s.l1 ^^^ block.getD 1 0
    l2 := s.l2 ^^^ block.getD 2 0
    l3 := s.l3 ^^^ block.getD 3 0
    l4 := s.l4 ^^^ block.getD 4 0
    l5 := s.l5 ^^^ block.getD 5 0
    l6 := s.l6 ^^^ block.getD 6 0
    l7 := s.l7 ^^^ block.getD 7 0
    l8 := s.l8 ^^^ block.getD 8 0
    l9 := s.l9 ^^^ block.getD 9 0
    l10 := s.l10 ^^^ block.getD 10 0
    l11 := s.l11 ^^^ block.getD 11 0
    l12 := s.l12 ^^^ block.getD 12 0
    l13 := s.l13 ^^^ block.getD 13 0
    l14 := s.l14 ^^^ block.getD 14 0
    l15 := s.l15 ^^^ block.getD 15 0
    l16 := s.l16 ^^^ block.getD 16 0
    l17 := s.l17 ^^^ block.getD 17 0
    l18 := s.l18 ^^^ block.getD 18 0
    l19 := s.l19 ^^^ block.getD 19 0
    l20 := s.l20 ^^^ block.getD 20 0
    l21 := s.l21 ^^^ block.getD 21 0
    l22 := s.l22 ^^^ block.getD 22 0
    l23 := s.l23 ^^^ block.getD 23 0
    l24 := s.l24 ^^^ block.getD 24 0 }

end Lanes
end Countersign.Sponge
