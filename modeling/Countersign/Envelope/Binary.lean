import Countersign.Cbor.Reader
import Countersign.Envelope.Basic

/-! The binary form of an envelope: one CBOR map, with keys and signatures as byte strings. Any
order of the entries is read; a text key occurs once, and other keys are passed over. -/

namespace Countersign

namespace Metadata

def entry (key : String) (s : Option String) : List (Cbor × Cbor) :=
  s.toList.map fun s => (.text key, .text s)

def toCbor (m : Metadata) : Cbor :=
  .map (entry "guardianId" m.guardianId ++ entry "issuedAt" m.issuedAt ++ entry "note" m.note)

def textOf (key : String) : Cbor → Except Envelope.Fault (Option String)
  | .null => .ok none
  | .text s => .ok (some s)
  | _ => .error (.malformed (.metadataNotText key))

def setField (m : Metadata) (key : String) (item : Cbor) : Except Envelope.Fault Metadata :=
  if key = "guardianId" then (textOf key item).map fun s => { m with guardianId := s }
  else if key = "issuedAt" then (textOf key item).map fun s => { m with issuedAt := s }
  else if key = "note" then (textOf key item).map fun s => { m with note := s }
  else .ok m

/-- Takes in the entries of a map, after those whose keys are `seen`. -/
def setFields (seen : List String) (m : Metadata) :
    List (Cbor × Cbor) → Except Envelope.Fault Metadata
  | [] => .ok m
  | (.text key, item) :: rest =>
    if key ∈ seen then .error (.malformed (.repeatedMetadataKey key))
    else (m.setField key item).bind fun m => setFields (key :: seen) m rest
  | _ :: rest => setFields seen m rest

def ofCbor : Cbor → Except Envelope.Fault (Option Metadata)
  | .null => .ok none
  | .map entries => (setFields [] {} entries).map some
  | _ => .error (.malformed .metadataNotMap)

end Metadata

namespace Envelope

def toCbor (e : Envelope) : Cbor :=
  .map ([(.text "version", .natural version),
    (.text "algorithm", .text algorithm),
    (.text "parameterSet", .natural e.parameterSet.toNat),
    (.text "digest", .text e.digest),
    (.text "publicKey", .octets e.publicKey),
    (.text "signature", .octets e.signature)] ++
    e.metadata.toList.map fun m => (.text "metadata", m.toCbor))

def encodeBinary (e : Envelope) : Bytes := e.toCbor.encode

/-- What the entries read so far say. -/
structure Draft where
  version? : Option Nat := none
  algorithm? : Option String := none
  parameterSet? : Option UInt8 := none
  digest : String := ""
  publicKey : Bytes := []
  signature : Bytes := []
  metadata : Option Metadata := none

def unsignedOf (field : String) : Cbor → Except Fault Nat
  | .natural n => if n < 1 <<< 64 then .ok n else .error (.malformed (.notUnsigned field))
  | _ => .error (.malformed (.notUnsigned field))

def setOf (n : Nat) : Except Fault UInt8 :=
  if n < 256 then .ok (UInt8.ofNat n) else .error (.malformed (.setOutOfRange n))

def textOf (field : String) : Cbor → Except Fault String
  | .text s => .ok s
  | _ => .error (.malformed (.notText field))

/-- A digest may be given by its 32 bytes. -/
def digestOf : Cbor → Except Fault String
  | .octets content =>
    if content.length = 32 then .ok (Hex.prefixed content) else textOf "digest" (.octets content)
  | item => textOf "digest" item

def bytesOf (field : String) : Cbor → Except Fault Bytes
  | .octets content => .ok content
  | .text s => bytesOfText field s
  | _ => .error (.malformed (.notBytes field))

namespace Draft

def setField (d : Draft) (key : String) (item : Cbor) : Except Fault Draft :=
  if key = "version" then (unsignedOf key item).map fun n => { d with version? := some n }
  else if key = "algorithm" then (textOf key item).map fun s => { d with algorithm? := some s }
  else if key = "parameterSet" then
    ((unsignedOf key item).bind setOf).map fun n => { d with parameterSet? := some n }
  else if key = "digest" then (digestOf item).map fun s => { d with digest := s }
  else if key = "publicKey" then (bytesOf key item).map fun b => { d with publicKey := b }
  else if key = "signature" then (bytesOf key item).map fun b => { d with signature := b }
  else if key = "metadata" then (Metadata.ofCbor item).map fun m => { d with metadata := m }
  else .ok d

def setFields (seen : List String) (d : Draft) : List (Cbor × Cbor) → Except Fault Draft
  | [] => .ok d
  | (.text key, item) :: rest =>
    if key ∈ seen then .error (.malformed (.repeatedKey key))
    else (d.setField key item).bind fun d => setFields (key :: seen) d rest
  | _ :: rest => setFields seen d rest

/-- The envelope, once all entries have been read. -/
def finish (d : Draft) : Except Fault Envelope :=
  (checkLiterals d.version? d.algorithm?).bind fun () =>
    match d.parameterSet? with
    | none => .error (.malformed (.missing "parameterSet"))
    | some n => .ok ⟨n, d.digest, d.publicKey, d.signature, d.metadata⟩

end Draft

def ofCbor : Cbor → Except Fault Envelope
  | .map entries => (Draft.setFields [] {} entries).bind Draft.finish
  | _ => .error (.malformed .notMap)

def decodeBinary (bytes : Bytes) : Except Fault Envelope :=
  match Cbor.read? bytes with
  | some item => ofCbor item
  | none => .error .notCbor

end Envelope
end Countersign
