import Countersign.Key.Text

/-! An envelope: one guardian's signature over one digest, with what the guardian says about it. -/

namespace Countersign

/-- What a guardian adds to a signature. -/
structure Metadata where
  guardianId : Option String := none
  issuedAt : Option String := none
  note : Option String := none
  deriving DecidableEq, Repr

/-- A digest, key or signature that was left out is empty. -/
structure Envelope where
  parameterSet : UInt8
  digest : String
  publicKey : Bytes
  signature : Bytes
  metadata : Option Metadata
  deriving DecidableEq, Repr

namespace Envelope

def version : Nat := 1

def algorithm : String := "dilithium"

def guardianId (e : Envelope) : Option String := e.metadata.bind (·.guardianId)

inductive Malformation where
  | notMap
  | repeatedKey (key : String)
  | notUnsigned (field : String)
  | setOutOfRange (n : Nat)
  | notText (field : String)
  | notBytes (field : String)
  | notKey (fault : KeyFault)
  | metadataNotMap
  | repeatedMetadataKey (key : String)
  | metadataNotText (key : String)
  | missing (field : String)
  deriving DecidableEq, Repr

def Malformation.message : Malformation → String
  | notMap => "top-level CBOR item is not a map"
  | repeatedKey key => s!"duplicate key `{key}`"
  | notUnsigned field => s!"{field} is not an unsigned integer"
  | setOutOfRange n => s!"parameterSet {n} out of range"
  | notText field => s!"{field} is not a text string"
  | notBytes field => s!"{field} is not a byte string"
  | notKey fault => fault.message
  | metadataNotMap => "metadata is not a map"
  | repeatedMetadataKey key => s!"duplicate metadata key `{key}`"
  | metadataNotText key => s!"metadata.{key} is not a text string"
  | missing field => s!"missing {field}"

inductive Fault where
  | notCbor
  | notJson
  | unsupportedAlgorithm (name : String)
  | unsupportedVersion (n : Nat)
  | malformed (why : Malformation)
  deriving DecidableEq, Repr

def Fault.message : Fault → String
  | notCbor => "CBOR decoding failed"
  | notJson => "JSON envelope error"
  | unsupportedAlgorithm name => s!"unsupported envelope algorithm `{name}`"
  | unsupportedVersion n => s!"unsupported envelope version {n}"
  | malformed why => s!"malformed envelope: {why.message}"

/-- Accepts the one algorithm and the one version there is; the algorithm is looked at first. -/
def checkLiterals (version? : Option Nat) (algorithm? : Option String) : Except Fault Unit :=
  match algorithm?, version? with
  | none, _ => .error (.malformed (.missing "algorithm"))
  | some name, none =>
    if name = algorithm then .error (.malformed (.missing "version"))
    else .error (.unsupportedAlgorithm name)
  | some name, some n =>
    if name ≠ algorithm then .error (.unsupportedAlgorithm name)
    else if n ≠ version then .error (.unsupportedVersion n)
    else .ok ()

def bytesOfText (field s : String) : Except Fault Bytes :=
  if (Text.trim s.toList).isEmpty then .ok []
  else
    match KeyEncoding.auto.decode field s with
    | .ok bytes => .ok bytes
    | .error fault => .error (.malformed (.notKey fault))

end Envelope
end Countersign
