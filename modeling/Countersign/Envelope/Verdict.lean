import Countersign.Envelope.Basic
import Countersign.Intent.Digest
import Countersign.Key.Scheme

/-! Whether an envelope's signature counts, and if not, why. -/

namespace Countersign

inductive Rejection where
  | unknownGuardian
  | parameterSetMismatch
  | duplicateGuardian
  | missingDigest
  | digestMismatch
  | malformedDigest
  | missingSignature
  | missingPublicKey
  | unsupportedParameterSet
  | signatureInvalid
  deriving DecidableEq, Repr

def Rejection.text : Rejection → String
  | unknownGuardian => "Unknown guardian"
  | parameterSetMismatch => "Parameter set mismatch"
  | duplicateGuardian => "Duplicate guardian signature"
  | missingDigest => "Missing digest"
  | digestMismatch => "Digest mismatch"
  | malformedDigest => "Malformed digest"
  | missingSignature => "Missing signature"
  | missingPublicKey => "Missing public key"
  | unsupportedParameterSet => "Unsupported parameter set"
  | signatureInvalid => "Signature verification failed"

inductive Verdict where
  | valid
  | invalid (reason : Rejection)
  deriving DecidableEq, Repr

namespace Envelope

/-- The verdict on an envelope by itself. What can be told from its fields comes before any
cryptography. -/
def verdictAlone (e : Envelope) : Verdict :=
  if e.signature.isEmpty then .invalid .missingSignature
  else if e.publicKey.isEmpty then .invalid .missingPublicKey
  else if !Scheme.isSupported e.parameterSet then .invalid .unsupportedParameterSet
  else
    match Digest.parse e.digest with
    | .error _ => .invalid .malformedDigest
    | .ok d =>
      if Scheme.verify e.parameterSet e.publicKey d.bytes e.signature then .valid
      else .invalid .signatureInvalid

/-- The verdict on an envelope, against the digest that is expected of it if there is one. -/
def verdict (e : Envelope) (expected : Option Digest) : Verdict :=
  if (Text.trim e.digest.toList).isEmpty then .invalid .missingDigest
  else
    match expected with
    | some d => if d.IsNamed e.digest then e.verdictAlone else .invalid .digestMismatch
    | none => e.verdictAlone

end Envelope
end Countersign
