import Countersign.Disk.Basic
import Countersign.Envelope.Binary
import Countersign.Envelope.Textual

/-! Collecting the envelopes in a directory. Each entry is reported on, in the order of names;
regular files are read as CBOR first and as JSON next. An entry is looked at where it stands in the
directory. This takes for granted that the path which is reported for it is within the limit that
the system has for paths, and that a file can be read: no entry is skipped for want of either. -/

namespace Countersign.Envelope

inductive Format where
  | cbor
  | json
  deriving DecidableEq, Repr

inductive SkipReason where
  | notRegular
  | empty
  | undecodable (cbor json : Fault)
  deriving DecidableEq, Repr

def SkipReason.text : SkipReason → String
  | notRegular => "not a regular file"
  | empty => "empty file"
  | undecodable cbor json =>
    s!"not a CBOR envelope ({cbor.message}); not a JSON envelope ({json.message})"

inductive Outcome where
  | parsed (format : Format)
  | skipped (reason : SkipReason)
  deriving DecidableEq, Repr

structure Report where
  path : String
  outcome : Outcome
  deriving DecidableEq, Repr

/-- The envelopes of a directory and one report for each of its entries. -/
structure Inbox where
  envelopes : List Envelope := []
  reports : List Report := []

/-- The envelope that an entry holds, and its format. -/
def ofNode : Node → Except SkipReason (Envelope × Format)
  | .file _ [] => .error .empty
  | .file _ content =>
    match decodeBinary content with
    | .ok e => .ok (e, .cbor)
    | .error cbor =>
      match decodeTextual content with
      | .ok e => .ok (e, .json)
      | .error json => .error (.undecodable cbor json)
  | _ => .error .notRegular

namespace Inbox

def add (path : String) (node : Node) (inbox : Inbox) : Inbox :=
  match ofNode node with
  | .ok (e, format) => ⟨e :: inbox.envelopes, ⟨path, .parsed format⟩ :: inbox.reports⟩
  | .error reason => { inbox with reports := ⟨path, .skipped reason⟩ :: inbox.reports }

def ofEntries (entries : List (String × Node)) : Inbox :=
  entries.foldr (fun (path, node) inbox => inbox.add path node) {}

/-- The inbox of a directory, unless it cannot be listed. -/
def load? (disk : Disk) (directory : String) : Option Inbox := do
  let names ← disk.list? directory
  let (place, _) ← (disk.resolve true directory).toOption
  return ofEntries ((names.mergeSort (fun a b => a ≤ b)).filterMap fun name =>
    (disk.node? (place ++ [name])).map fun node => (Path.join directory name, node))

end Inbox

def unlistable (directory : String) : String := s!"failed listing envelope directory {directory}"

end Countersign.Envelope
