import Countersign.Lattice.Signing

/-! Guardians' keys. A parameter set names the strength of the signatures; sets 0 and 1 are the
same strength. -/

namespace Countersign

inductive SchemeFault where
  | unsupportedSet (parameterSet : UInt8)
  | keyLength (what : String) (parameterSet : UInt8) (expected actual : Nat)
  | foreignKey
  | refused
  deriving DecidableEq, Repr

def SchemeFault.message : SchemeFault → String
  | unsupportedSet parameterSet => s!"unsupported parameter set {parameterSet} (expected 0..=3)"
  | keyLength what parameterSet expected actual =>
    s!"{what} length for parameter set {parameterSet}: expected {expected}, got {actual}"
  | foreignKey => "public key does not belong to the supplied private key"
  | refused => "ML-DSA operation failed"

namespace Scheme

open Countersign.Lattice (Level)

def level? (parameterSet : UInt8) : Option Level :=
  if parameterSet = 0 ∨ parameterSet = 1 then some .mlDsa44
  else if parameterSet = 2 then some .mlDsa65
  else if parameterSet = 3 then some .mlDsa87
  else none

def level (parameterSet : UInt8) : Except SchemeFault Level :=
  match level? parameterSet with
  | some level => .ok level
  | none => .error (.unsupportedSet parameterSet)

def defaultSet : UInt8 := 2

def isSupported (parameterSet : UInt8) : Bool := parameterSet ≤ 3

structure KeyPair where
  publicKey : Bytes
  secretKey : Bytes
  parameterSet : UInt8

def keyPair (parameterSet : UInt8) (seed : Bytes) : Except SchemeFault KeyPair := do
  let level ← level parameterSet
  let (publicKey, secretKey) := Lattice.keyPair level seed
  return ⟨publicKey, secretKey, parameterSet⟩

/-- What a secret key is shown as: its length alone. -/
def redacted (secretKey : Bytes) : String := s!"<redacted:{secretKey.length}>"

def checkLength (what : String) (parameterSet : UInt8) (expected actual : Nat) :
    Except SchemeFault Unit :=
  if expected = actual then .ok () else .error (.keyLength what parameterSet expected actual)

def publicKeyOf (parameterSet : UInt8) (secretKey : Bytes) : Except SchemeFault Bytes := do
  let level ← level parameterSet
  checkLength "private key" parameterSet level.secretKeyBytes secretKey.length
  return Lattice.publicKeyOf level secretKey

def sign (parameterSet : UInt8) (secretKey message randomness : Bytes) :
    Except SchemeFault Bytes := do
  let level ← level parameterSet
  checkLength "private key" parameterSet level.secretKeyBytes secretKey.length
  match Lattice.sign? level secretKey message randomness with
  | some signature => return signature
  | none => .error .refused

/-- Whether the key and the signature are well-formed and the signature is the key's. -/
def verify (parameterSet : UInt8) (publicKey message signature : Bytes) : Bool :=
  match level? parameterSet with
  | some level => Lattice.verify level publicKey message signature
  | none => false

end Scheme
end Countersign
