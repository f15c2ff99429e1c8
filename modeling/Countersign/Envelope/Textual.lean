import Countersign.Envelope.Basic
import Countersign.Json.Record

/-! The textual form of an envelope: JSON, with keys and signatures as hexadecimal digits. -/

namespace Countersign

namespace Metadata

def jsonEntry (name : String) (s : Option String) : List (Bytes × Json) :=
  s.toList.map fun s => (Text.utf8 name, .string s)

def toJson (m : Metadata) : Json :=
  .object (jsonEntry "guardianId" m.guardianId ++ jsonEntry "issuedAt" m.issuedAt ++
    jsonEntry "note" m.note)

def form : Json.Form := ⟨["guardianId", "issuedAt", "note"], 0, false⟩

def ofJson? (j : Json) : Option Metadata := do
  let given := form.given j.document
  guard given.whole
  return {
    guardianId := ← Json.optional? Json.string? given 0
    issuedAt := ← Json.optional? Json.string? given 1
    note := ← Json.optional? Json.string? given 2 }

end Metadata

namespace Envelope

def toJson (e : Envelope) : Json :=
  .object ([(Text.utf8 "version", .natural version),
    (Text.utf8 "algorithm", .string algorithm),
    (Text.utf8 "parameterSet", .natural e.parameterSet.toNat),
    (Text.utf8 "digest", .string e.digest),
    (Text.utf8 "publicKey", .string (Hex.prefixed e.publicKey)),
    (Text.utf8 "signature", .string (Hex.prefixed e.signature))] ++
    e.metadata.toList.map fun m => (Text.utf8 "metadata", m.toJson))

def encodeTextual (e : Envelope) : Bytes := e.toJson.pretty 0

def form : Json.Form :=
  ⟨["version", "algorithm", "parameterSet", "digest", "publicKey", "signature", "metadata"], 3, false⟩

/-- The fields of an envelope before version, algorithm, key and signature are looked at. -/
structure Written where
  version : Nat
  algorithm : String
  parameterSet : UInt8
  digest : String
  publicKey : String
  signature : String
  metadata : Option Metadata

def Written.ofJson? (document : Json.Document) : Option Written := do
  let given := form.given document
  guard given.whole
  return {
    version := ← (← given.field? 0).below? (1 <<< 64)
    algorithm := ← Json.needed? given 1
    parameterSet := UInt8.ofNat (← (← given.field? 2).below? 256)
    digest := ← Json.textOr given 3
    publicKey := ← Json.textOr given 4
    signature := ← Json.textOr given 5
    metadata := ← Json.optional? Metadata.ofJson? given 6 }

def decodeTextual (bytes : Bytes) : Except Fault Envelope :=
  match Written.ofJson? (Json.readDocument bytes) with
  | none => .error .notJson
  | some w => do
    checkLiterals (some w.version) (some w.algorithm)
    let publicKey ← bytesOfText "publicKey" w.publicKey
    let signature ← bytesOfText "signature" w.signature
    return ⟨w.parameterSet, w.digest, publicKey, signature, w.metadata⟩

end Envelope
end Countersign
