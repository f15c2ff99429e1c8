import Countersign.Lattice.Ring

/-! The three strengths of the signature scheme and the sizes that follow from each. -/

namespace Countersign.Lattice

inductive Level where
  | mlDsa44
  | mlDsa65
  | mlDsa87
  deriving DecidableEq, Repr

namespace Level

def rows : Level → Nat
  | mlDsa44 => 4
  | mlDsa65 => 6
  | mlDsa87 => 8

def columns : Level → Nat
  | mlDsa44 => 4
  | mlDsa65 => 5
  | mlDsa87 => 7

/-- The greatest size of a secret coefficient. -/
def secretBound : Level → Nat
  | mlDsa44 => 2
  | mlDsa65 => 4
  | mlDsa87 => 2

/-- How many bits a secret coefficient takes. -/
def secretWidth : Level → Nat
  | mlDsa44 => 3
  | mlDsa65 => 4
  | mlDsa87 => 3

/-- How many coefficients of a challenge are not zero. -/
def challengeWeight : Level → Nat
  | mlDsa44 => 39
  | mlDsa65 => 49
  | mlDsa87 => 60

/-- The bytes of a challenge's hash. -/
def challengeBytes : Level → Nat
  | mlDsa44 => 32
  | mlDsa65 => 48
  | mlDsa87 => 64

/-- The range of a mask's coefficients is two to this power, less one bit for the sign. -/
def maskWidth : Level → Nat
  | mlDsa44 => 18
  | mlDsa65 => 20
  | mlDsa87 => 20

def maskRange (level : Level) : Nat := 1 <<< (level.maskWidth - 1)

/-- How many values the high part of a coefficient can take. -/
def highValues : Level → Nat
  | mlDsa44 => 44
  | mlDsa65 => 16
  | mlDsa87 => 16

def highWidth : Level → Nat
  | mlDsa44 => 6
  | mlDsa65 => 4
  | mlDsa87 => 4

/-- Half the distance between two high parts. -/
def lowRange (level : Level) : Nat := (modulus - 1) / (2 * level.highValues)

/-- The most hints that a signature may hold. -/
def hintLimit : Level → Nat
  | mlDsa44 => 80
  | mlDsa65 => 55
  | mlDsa87 => 75

/-- The most that a challenge times a secret can add to a coefficient. -/
def slack (level : Level) : Nat := level.challengeWeight * level.secretBound

def publicKeyBytes (level : Level) : Nat := 32 + level.rows * 320

def secretKeyBytes (level : Level) : Nat :=
  128 + (level.rows + level.columns) * (32 * level.secretWidth) + level.rows * 416

def signatureBytes (level : Level) : Nat :=
  level.challengeBytes + level.columns * (32 * level.maskWidth) + level.hintLimit + level.rows

example : (publicKeyBytes mlDsa44, secretKeyBytes mlDsa44, signatureBytes mlDsa44) =
    (1312, 2560, 2420) := by decide
example : (publicKeyBytes mlDsa65, secretKeyBytes mlDsa65, signatureBytes mlDsa65) =
    (1952, 4032, 3309) := by decide
example : (publicKeyBytes mlDsa87, secretKeyBytes mlDsa87, signatureBytes mlDsa87) =
    (2592, 4896, 4627) := by decide

end Level
end Countersign.Lattice
