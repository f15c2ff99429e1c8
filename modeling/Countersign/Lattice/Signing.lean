import Countersign.Lattice.Sampling

/-! Key pairs, signatures and their verification: the module-lattice scheme in its pure mode with
an empty context. -/

namespace Countersign.Lattice

open Sponge (shake256)

def hash (count : Nat) (bytes : Bytes) : Bytes := (shake256 bytes).take count

/-- The message as it is signed: no context, no hash in front. -/
def framed (message : Bytes) : Bytes := 0 :: 0 :: message

/-- The public vector, split into its published high and its low parts. -/
def publicVector (level : Level) (seed : Bytes) (first second : List Poly) :
    List Poly × List Poly :=
  let product := matrixTimes (publicMatrix level seed) (first.map Poly.transform)
  let t := List.zipWith Poly.add product second
  (t.map (·.map fun a => (splitPower a).1), t.map (·.map fun a => ofSigned (splitPower a).2))

/-- The key pair that a seed of 32 bytes determines, public key first. -/
def keyPair (level : Level) (seed : Bytes) : Bytes × Bytes :=
  let h := hash 128 (seed ++ [UInt8.ofNat level.rows, UInt8.ofNat level.columns])
  let secretSeed := (h.drop 32).take 64
  let first := secretVector level secretSeed 0 level.columns
  let second := secretVector level secretSeed level.columns level.rows
  let (high, low) := publicVector level (h.take 32) first second
  let publicKey := PublicKey.encode ⟨h.take 32, high⟩
  (publicKey, SecretKey.encode level
    ⟨h.take 32, h.drop 96, hash 64 publicKey, first, second, low⟩)

/-- The public key of a secret key, computed from its secret vectors alone. -/
def publicKeyOf (level : Level) (secretKey : Bytes) : Bytes :=
  let key := SecretKey.decode level secretKey
  PublicKey.encode ⟨key.seed, (publicVector level key.seed key.first key.second).1⟩

def encodeHigh (level : Level) (w : List Poly) : Bytes :=
  w.flatMap fun p => packBits level.highWidth p.toList

/-- What signing works with: the secret vectors transformed, the matrix, and the message's hash. -/
structure Signer where
  matrix : List (List Poly)
  first : List Poly
  second : List Poly
  low : List Poly
  message : Bytes
  maskSeed : Bytes

/-- The signature that the masks of `counter` give, if it reveals nothing about the key. -/
def Signer.attempt? (signer : Signer) (level : Level) (counter : Nat) : Option Signature := do
  let mask := maskVector level signer.maskSeed counter
  let w := matrixTimes signer.matrix (mask.map Poly.transform)
  let high := w.map (·.map level.high)
  let seed := hash level.challengeBytes (signer.message ++ encodeHigh level high)
  let c := (challenge level seed).transform
  let times (v : List Poly) : List Poly := v.map fun p => (c.mul p).inverse
  let response := List.zipWith Poly.add mask (times signer.first)
  guard (norm response < level.maskRange - level.slack)
  let rest := List.zipWith Poly.sub w (times signer.second)
  guard (rest.all fun p => p.all fun a => (level.split a).2.natAbs < level.lowRange - level.slack)
  let lowTimes := times signer.low
  guard (norm lowTimes < level.lowRange)
  let corrected := List.zipWith Poly.add rest lowTimes
  let hints := List.zipWith (fun z r => List.zipWith
    (fun a b => level.hint ((modulus - a) % modulus) b) z.toList r.toList) lowTimes corrected
  guard ((hints.flatten.filter id).length ≤ level.hintLimit)
  return ⟨seed, response, hints⟩

/-- The first of `tries` attempts that gives a signature. -/
def Signer.firstOf (signer : Signer) (level : Level) : Nat → Nat → Option Signature
  | 0, _ => none
  | tries + 1, counter =>
    match signer.attempt? level counter with
    | some s => some s
    | none => signer.firstOf level tries (counter + level.columns)

/-- Signs a message. `randomness` varies the masks and nothing else. The masks are counted in two
bytes, which bounds the attempts. -/
def sign? (level : Level) (secretKey message randomness : Bytes) : Option Bytes := do
  let key := SecretKey.decode level secretKey
  let messageHash := hash 64 (key.publicHash ++ framed message)
  let signer : Signer := {
    matrix := publicMatrix level key.seed
    first := key.first.map Poly.transform
    second := key.second.map Poly.transform
    low := key.low.map Poly.transform
    message := messageHash
    maskSeed := hash 64 (key.maskSeed ++ randomness ++ messageHash) }
  return (← signer.firstOf level (65536 / level.columns) 0).encode level

/-- Whether `signature` is one over `message` by the owner of `publicKey`; keys and signatures of
another length are none. -/
def verify (level : Level) (publicKey message signature : Bytes) : Bool :=
  if publicKey.length ≠ level.publicKeyBytes ∨ signature.length ≠ level.signatureBytes then false
  else
    match Signature.decode? level signature with
    | none => false
    | some s =>
      let key := PublicKey.decode level publicKey
      let messageHash := hash 64 (hash 64 publicKey ++ framed message)
      let c := (challenge level s.challenge).transform
      let response := s.response.map Poly.transform
      let w := List.zipWith (fun row high =>
          ((dot row response).sub (c.mul ((high.scale 8192).transform))).inverse)
        (publicMatrix level key.seed) key.high
      let high := List.zipWith (fun hints p =>
        (List.zipWith level.useHint hints p.toList).toArray) s.hints w
      norm s.response < level.maskRange - level.slack &&
        s.challenge == hash level.challengeBytes (messageHash ++ encodeHigh level high)

end Countersign.Lattice
