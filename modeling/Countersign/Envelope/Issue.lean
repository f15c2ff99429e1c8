import Countersign.Envelope.Verdict
import Countersign.Intent.Domain
import Countersign.Intent.Request
import Countersign.Moment

/-! Making envelopes: signing a digest, or the digest of a request, with a guardian's keys. -/

namespace Countersign

/-- Metadata that names the guardian and the time of signing. -/
def Metadata.issued (guardianId : String) (now : Moment) : Metadata where
  guardianId := some guardianId
  issuedAt := some now.text

namespace Envelope

/-- Signs a digest. The public key has to be the one that belongs to the secret key. -/
def issue (keys : Scheme.KeyPair) (d : Digest) (metadata : Option Metadata) (randomness : Bytes) :
    Except SchemeFault Envelope := do
  let level ← Scheme.level keys.parameterSet
  Scheme.checkLength "public key" keys.parameterSet level.publicKeyBytes keys.publicKey.length
  let derived ← Scheme.publicKeyOf keys.parameterSet keys.secretKey
  if derived ≠ keys.publicKey then .error .foreignKey
  let signature ← Scheme.sign keys.parameterSet keys.secretKey d.bytes randomness
  return ⟨keys.parameterSet, d.text, keys.publicKey, signature, metadata⟩

inductive IssueFault where
  | intent (fault : IntentFault)
  | scheme (fault : SchemeFault)
  deriving DecidableEq, Repr

/-- Signs the intent that a request asks for, in a domain or without one. -/
def issueFor (keys : Scheme.KeyPair) (r : Request) (domain : Option Domain)
    (metadata : Option Metadata) (randomness : Bytes) : Except IssueFault (Intent × Envelope) :=
  match Intent.ofRequest r with
  | .error fault => .error (.intent fault)
  | .ok intent =>
    match issue keys (intent.digest domain) metadata randomness with
    | .error fault => .error (.scheme fault)
    | .ok e => .ok (intent, e)

end Envelope
end Countersign
