import Countersign.Disk.Replace
import Countersign.Envelope.Binary
import Countersign.Envelope.Textual

/-! Where envelopes are written: files named for the digest and the guardian. -/

namespace Countersign.Envelope

/-- The letters of a file name that a character becomes: those of its lower-case form that a name
may have, and a hyphen for any other. The dotted capital I becomes two characters, and the
sign for the kelvin is the one character beyond ASCII that becomes a letter. -/
def slugLetters (c : Char) : List Char :=
  if c = '\u0130' then ['i', '-']
  else if c = '\u212a' then ['k']
  else
    let l := c.toLower
    if ('a' ≤ l ∧ l ≤ 'z') ∨ ('0' ≤ l ∧ l ≤ '9') ∨ l = '_' ∨ l = '-' then [l] else ['-']

def slug (guardianId : Option String) : List Char :=
  match guardianId.bind Text.stated? with
  | some id => id.toList.flatMap slugLetters
  | none => "guardian".toList

/-- The first eight digits of the digest and the guardian's part. -/
def baseName (digest : String) (guardianId : Option String) : String :=
  let digits := (Hex.bare (Text.trim digest.toList)).map Char.toLower
  String.ofList (digits.take 8 ++ '-' :: slug guardianId)

/-- What an envelope's files are to be named for. -/
structure Naming where
  directory : String
  /-- Replaces the name made of digest and guardian. -/
  name : Option String
  digest : String
  guardianId : Option String
  textual : Bool

structure Plan where
  binaryPath : String
  textualPath : Option String
  deriving DecidableEq, Repr

def Naming.plan (n : Naming) : Plan :=
  let name := (n.name.bind Text.stated?).getD (baseName n.digest n.guardianId)
  { binaryPath := Path.join n.directory (name ++ ".cbor")
    textualPath := if n.textual then some (Path.join n.directory (name ++ ".json")) else none }

/-- Writes an envelope to its files, and gives the path of one that cannot be written. -/
def write (e : Envelope) (plan : Plan) (disk : Disk) : Disk × Option String :=
  match disk.replace plan.binaryPath e.encodeBinary with
  | (disk, false) => (disk, some plan.binaryPath)
  | (disk, true) =>
    match plan.textualPath with
    | none => (disk, none)
    | some path =>
      match disk.replace path e.encodeTextual with
      | (disk, false) => (disk, some path)
      | (disk, true) => (disk, none)

def unwritable (path : String) : String := s!"failed writing envelope file {path}"

end Countersign.Envelope
