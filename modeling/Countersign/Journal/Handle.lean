import Countersign.Disk.Replace
import Countersign.Journal.Record

/-! The journal of executed intents: a file, and what a process knows of it. A process that adds a
record holds the lock of the journal and reads the file again before it does. -/

namespace Countersign

inductive JournalFault where
  | alreadyExecuted (digest : String)
  | unreadable (path : String) (why : DocumentFault)
  | inaccessible (path : String)
  deriving DecidableEq, Repr

def JournalFault.message : JournalFault → String
  | alreadyExecuted digest => s!"intent {digest} is already recorded as executed"
  | unreadable path why =>
    let text := s!"ledger {path} is not a valid ledger document"
    match why.reason? with
    | none => text
    | some reason => text ++ ": " ++ reason
  | inaccessible path => s!"ledger I/O on {path}"

/-- The journal at a path, with the records that were last read from it or added to it. -/
structure Journal where
  path : String
  records : List ExecutionRecord := []

namespace Journal

def find? (journal : Journal) (digest : String) : Option ExecutionRecord :=
  ExecutionRecord.find? journal.records (Digest.normalForm digest)

def isExecuted (journal : Journal) (digest : String) : Bool := (journal.find? digest).isSome

/-- All records, oldest first. -/
def list (journal : Journal) : List ExecutionRecord :=
  journal.records.mergeSort ExecutionRecord.before

def newRecord (digest : String) (details : ExecutionDetails) (now : Moment) : ExecutionRecord where
  digest := Digest.normalForm digest
  time := now
  txHash := details.txHash
  approvals := details.approvals
  note := details.note
  onChainDigest := details.onChainDigest.map Digest.normalForm

/-! ### The files of a journal -/

/-- What the file of a journal holds; a file that is not there holds no records. -/
def readFile (disk : Disk) (path : String) : Except JournalFault Loaded :=
  if !disk.contains path then .ok {}
  else
    match disk.readText? path with
    | none => .error (.inaccessible path)
    | some text =>
      match ExecutionRecord.ofDocument text with
      | .ok loaded => .ok loaded
      | .error why => .error (.unreadable path why)

def lockPath (journal : Journal) : String := journal.path ++ ".lock"

/-- Makes the file that is locked, and the directories above it. -/
def makeLock (journal : Journal) (disk : Disk) : Disk × Option JournalFault :=
  let made := match Path.directory? journal.lockPath with
    | none => (disk, none)
    | some above =>
      match disk.makeDirectories above with
      | (disk, true) => (disk, none)
      | (disk, false) => (disk, some (.inaccessible above))
  match made with
  | (disk, some fault) => (disk, some fault)
  | (disk, none) =>
    match disk.openFile? true journal.lockPath with
    | some (_, disk) => (disk, none)
    | none => (disk, some (.inaccessible journal.lockPath))

/-- How a process gets at the lock of a journal, at its file, and at a replacement of it. -/
structure Access where
  makeLock : Journal → Disk → Disk × Option JournalFault
  readFile : Disk → String → Except JournalFault Loaded
  replace : Disk → String → Bytes → Disk × Bool

/-! ### Operations by way of accesses -/

namespace Access

/-- The accesses as they are if nothing but the files is in their way. -/
def sure : Access := ⟨Journal.makeLock, Journal.readFile, Disk.replace⟩

variable (access : Access) (journal : Journal) (disk : Disk)

def «open» (path : String) : Except JournalFault (Journal × List JournalWarning) :=
  (access.readFile disk path).map fun loaded => (⟨path, loaded.records⟩, loaded.warnings)

def reload : Except JournalFault (Journal × List JournalWarning) := access.open disk journal.path

/-- Takes the lock and reads the file again. -/
def lock : Disk × Except JournalFault (Journal × List JournalWarning) :=
  match access.makeLock journal disk with
  | (disk, some fault) => (disk, .error fault)
  | (disk, none) => (disk, access.reload journal disk)

variable (digest : String) (details : ExecutionDetails) (now : Moment)

/-- Adds a record under the lock. The file is replaced as a whole, and if that fails the record is
taken out again. -/
def recordLocked : Disk × Journal × Except JournalFault ExecutionRecord :=
  if journal.isExecuted digest then
    (disk, journal, .error (.alreadyExecuted (Digest.normalForm digest)))
  else
    let r := newRecord digest details now
    let records := journal.records ++ [r]
    match access.replace disk journal.path (ExecutionRecord.document records) with
    | (disk, true) => (disk, { journal with records }, .ok r)
    | (disk, false) =>
      (disk, { journal with records := ExecutionRecord.without records r.digest },
        .error (.inaccessible journal.path))

/-- Takes the lock and adds a record. -/
def record : Disk × Journal × List JournalWarning × Except JournalFault ExecutionRecord :=
  match access.lock journal disk with
  | (disk, .error fault) => (disk, journal, [], .error fault)
  | (disk, .ok (journal, warnings)) =>
    let (disk, journal, result) := access.recordLocked journal disk digest details now
    (disk, journal, warnings, result)

end Access

/-! ### Operations where nothing but the files is in the way -/

def «open» (disk : Disk) (path : String) : Except JournalFault (Journal × List JournalWarning) :=
  Access.sure.open disk path

variable (journal : Journal) (disk : Disk)

def reload : Except JournalFault (Journal × List JournalWarning) :=
  Access.sure.reload journal disk

def lock : Disk × Except JournalFault (Journal × List JournalWarning) :=
  Access.sure.lock journal disk

variable (digest : String) (details : ExecutionDetails) (now : Moment)

def recordLocked : Disk × Journal × Except JournalFault ExecutionRecord :=
  Access.sure.recordLocked journal disk digest details now

def record : Disk × Journal × List JournalWarning × Except JournalFault ExecutionRecord :=
  Access.sure.record journal disk digest details now

end Journal
end Countersign
