import Countersign.Proofs.Journal.Access
import Countersign.Proofs.Journal.Crash

/-! Calls that fail. Wherever a call breaks off, the file stays what it was, the handle stays what it
was or knows exactly the file, and what could not be recorded can be recorded later. -/

namespace Countersign.Journal

open Writing (Sound)

/-- What a process can ask of its handle. -/
inductive Call where
  | reload
  | lock
  /-- Under a lock that is held already. -/
  | recordLocked (digest : String) (details : ExecutionDetails) (now : Moment)
  | record (digest : String) (details : ExecutionDetails) (now : Moment)

namespace Call

end Call

/-- Carries a call out: the files and the handle afterwards, and what has gone wrong. -/
def Access.call (access : Access) (journal : Journal) (disk : Disk) :
    Call → Disk × Journal × Option JournalFault
  | .reload =>
    match access.reload journal disk with
    | .ok (fresh, _) => (disk, fresh, none)
    | .error fault => (disk, journal, some fault)
  | .lock =>
    match access.lock journal disk with
    | (disk, .ok (taken, _)) => (disk, taken, none)
    | (disk, .error fault) => (disk, journal, some fault)
  | .recordLocked digest details now =>
    match access.recordLocked journal disk digest details now with
    | (disk, journal, .ok _) => (disk, journal, none)
    | (disk, journal, .error fault) => (disk, journal, some fault)
  | .record digest details now =>
    match access.record journal disk digest details now with
    | (disk, journal, _, .ok _) => (disk, journal, none)
    | (disk, journal, _, .error fault) => (disk, journal, some fault)

/-- The handle has the table that would be loaded from the file. -/
def KnowsFile (disk : Disk) (journal : Journal) : Prop :=
  ∃ fresh warnings, journal.reload disk = .ok (fresh, warnings) ∧ SameTable journal fresh

variable {access : Access} {disk between other later : Disk} {path : String}
  {journal after taken : Journal} {records : List ExecutionRecord} {digest : String}
  {details : ExecutionDetails} {now : Moment} {fault : JournalFault}

/-! ### The file -/

/-- What a handle that knows the file does not have can be recorded, as soon as the lock can be had
and the file replaced. -/
theorem KnowsFile.exists_record (h : KnowsFile other journal) (hp : journal.path = path)
    (hnew : journal.isExecuted digest = false) (hh : later.Houses path)
    (hread : readFile later path = readFile other path)
    (hlock : (later.openFile? true (path ++ ".lock")).isSome = true)
    (hr : later.IsReplaceable path) (details : ExecutionDetails) (now : Moment) :
    ∃ final full warnings, journal.record later digest details now =
      (final, full, warnings, .ok (newRecord digest details now)) := by
  subst hp
  obtain ⟨fresh, warnings, hreload, hsame⟩ := h
  have hlater : journal.reload later = .ok (fresh, warnings) := (open_congr hread).trans hreload
  have hfresh : fresh.isExecuted digest = false := by
    rw [isExecuted, hsame.find?]
    exact hnew
  obtain ⟨final, full, hrecord⟩ := Journal.exists_record hh hlock hr hlater hfresh details now
  exact ⟨final, full, warnings, hrecord⟩

/-! ### The calls -/

/-- Every replacement breaks off after the new content has been written. -/
def Access.brokenOff : Access :=
  { sure with
    replace := fun disk path content =>
      ((FileStep.run path disk ((replacement content).take 3)).1, false) }

end Countersign.Journal
