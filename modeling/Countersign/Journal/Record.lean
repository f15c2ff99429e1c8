import Countersign.Intent.Digest
import Countersign.Json.Record
import Countersign.Json.Tagged
import Countersign.Moment

/-! Records of executed intents, and the document that lists them. An entry that cannot be read is
kept for its digest alone, so that damage never lets an intent be executed twice. -/

namespace Countersign

structure ExecutionRecord where
  /-- The digest in the form in which digest texts are compared. -/
  digest : String
  time : Moment
  txHash : Option String := none
  /-- The guardians whose approvals allowed the execution. -/
  approvals : Option (List String) := none
  note : Option String := none
  onChainDigest : Option String := none
  deriving DecidableEq, Repr

/-- What is noted with an execution. -/
structure ExecutionDetails where
  txHash : Option String := none
  approvals : Option (List String) := none
  note : Option String := none
  onChainDigest : Option String := none

namespace ExecutionRecord

def jsonEntry (name : String) (j : Option Json) : List (Bytes × Json) :=
  j.toList.map fun j => (Text.utf8 name, j)

def toJson (r : ExecutionRecord) : Json :=
  .object ([(Text.utf8 "digest", .string r.digest), (Text.utf8 "at", .string r.time.text)] ++
    jsonEntry "txHash" (r.txHash.map .string) ++
    jsonEntry "approvals" (r.approvals.map fun ids => .array (ids.map .string)) ++
    jsonEntry "note" (r.note.map .string) ++
    jsonEntry "onChainDigest" (r.onChainDigest.map .string))

/-- What `read` makes of an entry's field, which may be `null` or missing. -/
def field? {α : Type} (read : Json → Option α) (j : Json) (name : String) : Option (Option α) :=
  match j.get? name with
  | none => some none
  | some value => Json.nullable? read value

/-- The record of a digest that an entry holds in full. -/
def ofJson? (digest : String) (j : Json) : Option ExecutionRecord := do
  return {
    digest
    time := ← Moment.parse? (← (← j.get? "at").string?)
    txHash := ← field? Json.string? j "txHash"
    approvals := ← field? Json.strings? j "approvals"
    note := ← field? Json.string? j "note"
    onChainDigest := ← field? Json.string? j "onChainDigest" }

/-- The record of a digest whose entry says nothing else that can be read. -/
def recovered (digest : String) : ExecutionRecord where
  digest
  time := Moment.epoch
  note := some "recovered from malformed ledger entry"

/-- Older records come first; those of one instant are in the order of their digests. -/
def before (a b : ExecutionRecord) : Bool :=
  a.time.instant < b.time.instant || (a.time.instant == b.time.instant && decide (a.digest ≤ b.digest))

/-- The document that lists records, oldest first. -/
def document (records : List ExecutionRecord) : Bytes :=
  (Json.object [(Text.utf8 "executed", .array ((records.mergeSort before).map toJson))]).pretty 0

end ExecutionRecord

/-! ### Reading the document -/

/-- What is noted about an entry that is not taken in whole. -/
structure JournalWarning where
  place : Nat
  /-- The digest that is kept of the entry, if it has one. -/
  digest : Option String
  deriving DecidableEq, Repr

def JournalWarning.message (w : JournalWarning) : String :=
  if w.digest.isSome then "malformed ledger entry; keeping digest only"
  else "skipping ledger entry without digest"

inductive DocumentFault where
  | notJson
  | notObject
  | executedNotArray
  deriving DecidableEq, Repr

def DocumentFault.reason? : DocumentFault → Option String
  | notJson => none
  | notObject => some "top level is not an object"
  | executedNotArray => some "`executed` is not an array"

/-- The records of a document and what was noted while reading it. -/
structure Loaded where
  records : List ExecutionRecord := []
  warnings : List JournalWarning := []

namespace ExecutionRecord

def find? (records : List ExecutionRecord) (digest : String) : Option ExecutionRecord :=
  records.find? (·.digest = digest)

def digestOf? (entry : Json) : Option String :=
  (((entry.get? "digest").bind Json.string?).bind Text.stated?).map Digest.normalForm

/-- The records but for that of a digest. -/
def without (records : List ExecutionRecord) (digest : String) : List ExecutionRecord :=
  records.filter (·.digest ≠ digest)

/-- Adds a record behind the others, unless its digest is recorded already. -/
def addNew (records : List ExecutionRecord) (r : ExecutionRecord) : List ExecutionRecord :=
  if (find? records r.digest).isSome then records else records ++ [r]

/-- Takes in the entries from the `place`th on. -/
def takeEntries (place : Nat) (loaded : Loaded) : List Json → Loaded
  | [] => loaded
  | entry :: rest =>
    match digestOf? entry with
    | none =>
      takeEntries (place + 1) { loaded with warnings := loaded.warnings ++ [⟨place, none⟩] } rest
    | some digest =>
      match ofJson? digest entry with
      | some r => takeEntries (place + 1) { loaded with records := addNew loaded.records r } rest
      | none =>
        takeEntries (place + 1)
          ⟨addNew loaded.records (recovered digest), loaded.warnings ++ [⟨place, some digest⟩]⟩ rest

/-- The records that a text lists; a blank text lists none. -/
def ofDocument (text : String) : Except DocumentFault Loaded :=
  if (Text.trim text.toList).isEmpty then .ok {}
  else
    match (Json.read? (Text.utf8 text)).bind (Json.takenIn? 0) with
    | none => .error .notJson
    | some (.object entries) =>
      match Json.entry? "executed" entries with
      | none => .ok {}
      | some .null => .ok {}
      | some (.array items) => .ok (takeEntries 0 {} items)
      | some _ => .error .executedNotArray
    | some _ => .error .notObject

end ExecutionRecord
end Countersign
