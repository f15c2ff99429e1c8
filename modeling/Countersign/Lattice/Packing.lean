import Countersign.Bytes.Hex
import Countersign.Lattice.Rounding

/-! Keys and signatures as bytes. Coefficients of a fixed width stand one after another, lowest
bit first; hints are written as the places of the coefficients they belong to. -/

namespace Countersign.Lattice

/-- The number whose digits in base `2 ^ width` are `digits`, least significant first. -/
def ofDigits (width : Nat) (digits : List Nat) : Nat :=
  digits.foldr (fun d n => d + (n <<< width)) 0

def toDigits (width : Nat) : Nat → Nat → List Nat
  | 0, _ => []
  | count + 1, n => n % (1 <<< width) :: toDigits width count (n >>> width)

def packBits (width : Nat) (digits : List Nat) : Bytes :=
  (toDigits 8 (digits.length * width / 8) (ofDigits width digits)).map UInt8.ofNat

def unpackBits (width count : Nat) (bytes : Bytes) : List Nat :=
  toDigits width count (ofDigits 8 (bytes.map UInt8.toNat))

/-- Packs coefficients near zero by their distance below `top`. -/
def packBelow (width top : Nat) (p : Poly) : Bytes :=
  packBits width (p.toList.map fun a => (top + modulus - a) % modulus)

def unpackBelow (width top : Nat) (bytes : Bytes) : Poly :=
  ((unpackBits width 256 bytes).map fun d => (top + modulus - d) % modulus).toArray

/-- Cuts `count` pieces of `size` bytes off the front. -/
def pieces (size : Nat) : Nat → Bytes → List Bytes
  | 0, _ => []
  | count + 1, bytes => bytes.take size :: pieces size count (bytes.drop size)

structure PublicKey where
  seed : Bytes
  high : List Poly

structure SecretKey where
  seed : Bytes
  /-- What masks are derived from. -/
  maskSeed : Bytes
  publicHash : Bytes
  first : List Poly
  second : List Poly
  low : List Poly

structure Signature where
  challenge : Bytes
  response : List Poly
  hints : List (List Bool)

def PublicKey.encode (key : PublicKey) : Bytes :=
  key.seed ++ key.high.flatMap fun p => packBits 10 p.toList

def PublicKey.decode (level : Level) (bytes : Bytes) : PublicKey where
  seed := bytes.take 32
  high := (pieces 320 level.rows (bytes.drop 32)).map fun b => (unpackBits 10 256 b).toArray

def SecretKey.encode (level : Level) (key : SecretKey) : Bytes :=
  key.seed ++ key.maskSeed ++ key.publicHash ++
    key.first.flatMap (packBelow level.secretWidth level.secretBound) ++
    key.second.flatMap (packBelow level.secretWidth level.secretBound) ++
    key.low.flatMap (packBelow 13 4096)

/-- The secret key that `bytes` hold. Every width of bits stands for some coefficient, so that one
beyond the bound on secret coefficients is taken as it is. -/
def SecretKey.decode (level : Level) (bytes : Bytes) : SecretKey :=
  let size := 32 * level.secretWidth
  let firstBytes := bytes.drop 128
  let secondBytes := firstBytes.drop (level.columns * size)
  let lowBytes := secondBytes.drop (level.rows * size)
  { seed := bytes.take 32
    maskSeed := (bytes.drop 32).take 32
    publicHash := (bytes.drop 64).take 64
    first := (pieces size level.columns firstBytes).map
      (unpackBelow level.secretWidth level.secretBound)
    second := (pieces size level.rows secondBytes).map
      (unpackBelow level.secretWidth level.secretBound)
    low := (pieces 416 level.rows lowBytes).map (unpackBelow 13 4096) }

def hintPlaces (hints : List Bool) : List Nat :=
  (hints.zipIdx.filter (·.1)).map (·.2)

def hintEnds (found : Nat) : List (List Nat) → List Nat
  | [] => []
  | places :: rest => (found + places.length) :: hintEnds (found + places.length) rest

def packHints (level : Level) (hints : List (List Bool)) : Bytes :=
  let places := hints.map hintPlaces
  let all := places.flatten
  (all ++ List.replicate (level.hintLimit - all.length) 0 ++ hintEnds 0 places).map UInt8.ofNat

/-- Whether each place is greater than the one before it. -/
def ascending : List Nat → Bool
  | a :: b :: rest => a < b && ascending (b :: rest)
  | _ => true

/-- The places of each row, given where each row's places end; the places after the last end
have to be zero. -/
def rowPlaces? (limit used : Nat) (places : List Nat) : List Nat → Option (List (List Nat))
  | [] => if places.all (· == 0) then some [] else none
  | last :: ends =>
    let row := places.take (last - used)
    if used ≤ last ∧ last ≤ limit ∧ ascending row then
      (rowPlaces? limit last (places.drop (last - used)) ends).map (row :: ·)
    else none

def unpackHints? (level : Level) (bytes : Bytes) : Option (List (List Bool)) := do
  let places := (bytes.take level.hintLimit).map UInt8.toNat
  let ends := ((bytes.drop level.hintLimit).take level.rows).map UInt8.toNat
  let rows ← rowPlaces? level.hintLimit 0 places ends
  return rows.map fun row => (List.range 256).map row.contains

def Signature.encode (level : Level) (s : Signature) : Bytes :=
  s.challenge ++ s.response.flatMap (packBelow level.maskWidth level.maskRange) ++
    packHints level s.hints

def Signature.decode? (level : Level) (bytes : Bytes) : Option Signature := do
  let size := 32 * level.maskWidth
  let response := bytes.drop level.challengeBytes
  let hints ← unpackHints? level (response.drop (level.columns * size))
  return {
    challenge := bytes.take level.challengeBytes
    response := (pieces size level.columns response).map
      (unpackBelow level.maskWidth level.maskRange)
    hints }

end Countersign.Lattice
