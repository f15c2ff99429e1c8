import Countersign.Proofs.Disk.Replaceable
import Countersign.Proofs.Journal.Adding

/-! What a writing that broke off has left beside a journal. Nobody reads it: with it or without
it, a journal is opened and added to in the same way. -/

namespace Countersign.Journal

open FileStep (besidePath)

/-- The content of a journal's file; one that is not there has none. -/
def held (disk : Disk) (path : String) : Bytes := (disk.read? path).getD []

variable {disk other disk' other' : Disk} {path : String} {journal : Journal}

theorem held_of_file {number : Nat} {content : Bytes}
    (h : disk.at? true path = some (.file number content)) : held disk path = content := by
  simp [held, Disk.read?, Disk.find?_eq_at?, h]

theorem held_of_none (h : disk.at? true path = none) : held disk path = [] := by
  simp [held, Disk.read?, Disk.find?_eq_at?, h]

theorem held_of_directory (h : disk.at? true path = some .directory) : held disk path = [] := by
  simp [held, Disk.read?, Disk.find?_eq_at?, h]

theorem houses_cases (h : disk.Houses path) : disk.at? true path = none ∨
    disk.at? true path = some .directory ∨
      ∃ number, disk.at? true path = some (.file number (held disk path)) := by
  rcases h.file with hv | ⟨number, content, ha, _⟩
  · rcases hv.at? true with ha | ha
    · exact .inl ha
    · exact .inr (.inl ha)
  · exact .inr (.inr ⟨number, by rw [held_of_file ha, ha]⟩)

theorem readFile_eq_held (h : disk.Houses path) (hd : disk.at? true path ≠ some .directory) :
    readFile disk path = match Text.ofUtf8? (held disk path) with
      | none => .error (.inaccessible path)
      | some text =>
        match ExecutionRecord.ofDocument text with
        | .ok loaded => .ok loaded
        | .error why => .error (.unreadable path why) := by
  rcases houses_cases h with ha | ha | ⟨number, ha⟩
  · have hempty : Text.ofUtf8? [] = some "" := Text.ofUtf8?_utf8 ""
    rw [readFile_of_none ha, held_of_none ha, hempty]
    rfl
  · exact absurd ha hd
  · exact readFile_of_file ha

/-- What is held decides on what is read. -/
theorem readFile_eq_of_held (h : disk.Houses path) (ho : other.Houses path)
    (hs : disk.SameWays other) (hheld : held other path = held disk path) :
    readFile other path = readFile disk path := by
  by_cases hd : disk.at? true path = some .directory
  · rw [readFile_of_directory hd, readFile_of_directory (hs.at?_directory_iff.mpr hd)]
  · rw [readFile_eq_held h hd, readFile_eq_held ho (mt hs.at?_directory_iff.mp hd), hheld]

theorem held_eq_of_leavesAlone (h : disk.LeavesAlone other path) (hh : disk.Houses path) :
    held other path = held disk path := by
  rcases houses_cases hh with ha | ha | ⟨number, ha⟩
  · rw [held_of_none ha]
    cases ho : other.at? true path with
    | none => exact held_of_none ho
    | some node =>
      rcases h.vacant ha node ho with rfl | ⟨number, rfl, _⟩
      · exact held_of_directory ho
      · exact held_of_file ho
  · rw [held_of_directory ha, held_of_directory (h.directory ha)]
  · rw [held_of_file (h.file number _ ha)]

/-- A change that leaves the file alone, and all ways as they were. -/
structure Spares (disk other : Disk) (path : String) : Prop where
  leavesAlone : disk.LeavesAlone other path
  sameWays : disk.SameWays other

theorem Spares.held_eq (h : Spares disk other path) (hh : disk.Houses path) :
    held other path = held disk path := held_eq_of_leavesAlone h.leavesAlone hh

theorem Spares.readFile_eq (h : Spares disk other path) (hh : disk.Houses path) :
    readFile other path = readFile disk path :=
  readFile_eq_of_held hh h.leavesAlone.houses h.sameWays (h.held_eq hh)

theorem spares_write? (h : disk.Houses path) {content : Bytes}
    (hw : disk.write? (besidePath path) content = some other) : Spares disk other path :=
  ⟨(h.writeBeside hw).1, Disk.sameWays_write? hw⟩

theorem spares_run (h : disk.Houses path) (hd : disk.HasDirectory path) {steps : List FileStep}
    (hs : .rename ∉ steps) : Spares disk (FileStep.run path disk steps).1 path :=
  ⟨FileStep.run_leavesAlone h hs, hd.sameWays_run h.rooted hs⟩

theorem spares_replace (h : disk.Houses path) (hd : disk.HasDirectory path) {content : Bytes}
    (hr : disk.replace path content = (other, false)) : Spares disk other path :=
  ⟨h.leavesAlone_replace hr, h.sameWays_of_replace hd hr⟩

theorem makeLock_of_hasDirectory (hd : disk.HasDirectory journal.path)
    (hw : disk.IsRooted disk.working) : journal.makeLock disk =
      (disk.openFile? true journal.lockPath).elim (disk, some (.inaccessible journal.lockPath))
        fun opened => (opened.2, none) := by
  have hdirectory : disk.at? true ((Path.directory? journal.lockPath).getD ".") =
      some .directory := hd.at?_directory? hw (by decide)
  unfold makeLock
  cases ha : Path.directory? journal.lockPath with
  | none => cases ho : disk.openFile? true journal.lockPath <;> simp only [ho, Option.elim]
  | some above =>
    have hmade : disk.makeDirectories above = (disk, true) := by
      apply Disk.makeDirectories_of_directory
      rwa [ha] at hdirectory
    cases ho : disk.openFile? true journal.lockPath <;> simp only [hmade, ho, Option.elim]

theorem spares_makeLock (h : disk.Houses journal.path) (hd : disk.HasDirectory journal.path) :
    Spares disk (journal.makeLock disk).1 journal.path := by
  refine ⟨leavesAlone_makeLock h, ?_⟩
  rw [makeLock_of_hasDirectory hd h.rooted]
  cases ho : disk.openFile? true journal.lockPath with
  | none => exact .refl disk
  | some opened => exact Disk.sameWays_openFile? ho

/-- The lock is taken as soon as it can be opened and the file read. -/
theorem exists_lock (h : disk.Houses journal.path)
    (hlock : (disk.openFile? true journal.lockPath).isSome = true) {fresh : Journal}
    {warnings : List JournalWarning} (hread : journal.reload disk = .ok (fresh, warnings)) :
    ∃ locked, journal.lock disk = (locked, .ok (fresh, warnings)) ∧
      Spares disk locked journal.path := by
  have hd : disk.HasDirectory journal.path := Disk.hasDirectory_of_openFile? (by decide) hlock
  obtain ⟨⟨opened, locked⟩, hopened⟩ := Option.isSome_iff_exists.mp hlock
  have hmake : journal.makeLock disk = (locked, none) := by
    rw [makeLock_of_hasDirectory hd h.rooted, hopened]
    rfl
  have hspares := spares_makeLock h hd
  rw [hmake] at hspares
  have hreload : journal.reload locked = .ok (fresh, warnings) :=
    (open_congr (hspares.readFile_eq h)).trans hread
  exact ⟨locked, by rw [lock_of_makeLock hmake, hreload], hspares⟩

/-- A new execution is recorded as soon as the lock can be opened and the file replaced. -/
theorem exists_record (h : disk.Houses journal.path)
    (hlock : (disk.openFile? true journal.lockPath).isSome = true)
    (hr : disk.IsReplaceable journal.path) {fresh : Journal} {warnings : List JournalWarning}
    (hread : journal.reload disk = .ok (fresh, warnings)) {digest : String}
    (hnew : fresh.isExecuted digest = false) (details : ExecutionDetails) (now : Moment) :
    ∃ other after, journal.record disk digest details now =
      (other, after, warnings, .ok (newRecord digest details now)) := by
  have hd : disk.HasDirectory journal.path := Disk.hasDirectory_of_openFile? (by decide) hlock
  obtain ⟨locked, hlocked, hspares⟩ := exists_lock h hlock hread
  have hpath : fresh.path = journal.path := (open_eq_ok_iff.mp hread).1
  obtain ⟨_, _, ⟨_, other, _, hreplaced⟩ | ⟨hno, _⟩⟩ :=
    hspares.leavesAlone.houses.replace_cases (hd.of_sameWays hspares.sameWays)
      (ExecutionRecord.document (fresh.records ++ [newRecord digest details now]))
  · refine ⟨other, { fresh with records := fresh.records ++ [newRecord digest details now] }, ?_⟩
    rw [← hpath] at hreplaced
    exact record_of_lock hlocked (recordLocked_of_replace hnew hreplaced)
  · exact absurd (hr.of_sameWays hspares.sameWays) hno

/-- A record that is added to a file under its own name leaves the ways as they were. -/
theorem sameWays_of_record (h : disk.Houses journal.path) (hd : disk.HasDirectory journal.path)
    (hl : ∀ target, disk.at? false journal.path ≠ some (.link target)) {digest : String}
    {details : ExecutionDetails} {now : Moment} {after : Journal} {warnings : List JournalWarning}
    {r : ExecutionRecord}
    (hr : journal.record disk digest details now = (other, after, warnings, .ok r)) :
    disk.SameWays other := by
  rcases record_cases hr with ⟨_, _, hno, _⟩ | ⟨between, taken, hlock, hlocked⟩
  · exact nomatch hno
  · have hpath : taken.path = journal.path := ((lock_spec h hlock).2 taken warnings rfl).1
    have hmade : Spares disk between journal.path := by
      have hspares := spares_makeLock h hd
      rcases lock_cases hlock with ⟨_, _, hno⟩ | ⟨hm, _⟩
      · exact nomatch hno
      · rwa [hm] at hspares
    rcases recordLocked_cases hlocked with ⟨_, _, _, hno⟩ | ⟨_, hrep, _⟩ | ⟨_, _, _, hno⟩
    · exact nomatch hno
    · rw [hpath] at hrep
      refine hmade.sameWays.trans (hmade.leavesAlone.houses.sameWays_replaced
        (hd.of_sameWays hmade.sameWays) (fun target ht => ?_) hrep)
      obtain ⟨place, hp, hn⟩ := Disk.exists_of_at? ht
      exact hl target ((hmade.sameWays.leadsTo_iff.mp hp).at?.trans
        (hmade.sameWays.back.link place target hn))
    · exact nomatch hno

/-! ### Going on alike -/

/-- Two trees in which a journal is the same, but for what stands beside it. -/
structure Alike (path : String) (disk other : Disk) : Prop where
  houses : disk.Houses path
  houses' : other.Houses path
  hasDirectory : disk.HasDirectory path
  sameWays : disk.SameWays other
  held : held other path = held disk path

theorem Alike.readFile_eq (h : Alike path disk other) : readFile other path = readFile disk path :=
  readFile_eq_of_held h.houses h.houses' h.sameWays h.held

theorem Alike.of_spares (h : Alike path disk other) (hd : Spares disk disk' path)
    (ho : Spares other other' path) : Alike path disk' other' where
  houses := hd.leavesAlone.houses
  houses' := ho.leavesAlone.houses
  hasDirectory := h.hasDirectory.of_sameWays hd.sameWays
  sameWays := hd.sameWays.symm.trans (h.sameWays.trans ho.sameWays)
  held := by rw [hd.held_eq h.houses, ho.held_eq h.houses', h.held]

theorem alike_of_write? (h : disk.Houses path) {content : Bytes}
    (hw : disk.write? (besidePath path) content = some other) : Alike path disk other := by
  have hspares := spares_write? h hw
  refine ⟨h, hspares.leavesAlone.houses, ?_, hspares.sameWays, hspares.held_eq h⟩
  obtain ⟨_, ho, _⟩ := Option.map_eq_some_iff.mp hw
  exact Disk.hasDirectory_of_openFile? Disk.slash_not_mem_tmp (Option.isSome_of_eq_some ho)

theorem Alike.makeLock (h : Alike journal.path disk other) : ∃ disk' other' fault,
    journal.makeLock disk = (disk', fault) ∧ journal.makeLock other = (other', fault) ∧
      Alike journal.path disk' other' := by
  have hdirectory := h.hasDirectory.of_sameWays h.sameWays
  have halike := h.of_spares (spares_makeLock h.houses h.hasDirectory)
    (spares_makeLock h.houses' hdirectory)
  have hsome := h.sameWays.openFile?_isSome true journal.lockPath
  rw [makeLock_of_hasDirectory h.hasDirectory h.houses.rooted,
    makeLock_of_hasDirectory hdirectory h.houses'.rooted] at *
  cases ho : disk.openFile? true journal.lockPath with
  | none =>
    rw [ho, Option.isSome_none, Option.isSome_eq_false_iff, Option.isNone_iff_eq_none] at hsome
    rw [ho, hsome] at halike
    rw [hsome]
    exact ⟨_, _, _, rfl, rfl, halike⟩
  | some opened =>
    rw [ho, Option.isSome_some] at hsome
    obtain ⟨opened', hother⟩ := Option.isSome_iff_exists.mp hsome
    rw [ho, hother] at halike
    rw [hother]
    exact ⟨_, _, _, rfl, rfl, halike⟩

theorem Alike.lock (h : Alike journal.path disk other) : ∃ disk' other' result,
    journal.lock disk = (disk', result) ∧ journal.lock other = (other', result) ∧
      Alike journal.path disk' other' := by
  obtain ⟨disk', other', fault, hd, ho, halike⟩ := h.makeLock
  have hreload : journal.reload other' = journal.reload disk' := open_congr halike.readFile_eq
  cases fault with
  | some fault => exact ⟨_, _, _, lock_of_fault hd, lock_of_fault ho, halike⟩
  | none =>
    have hother := lock_of_makeLock ho
    rw [hreload] at hother
    exact ⟨_, _, _, lock_of_makeLock hd, hother, halike⟩

section

variable (digest : String) (details : ExecutionDetails) (now : Moment)

theorem Alike.recordLocked (h : Alike journal.path disk other) : ∃ disk' other' answer,
    journal.recordLocked disk digest details now = (disk', answer) ∧
      journal.recordLocked other digest details now = (other', answer) ∧
        Alike journal.path disk' other' := by
  cases hx : journal.isExecuted digest with
  | true => exact ⟨_, _, _, recordLocked_of_isExecuted hx, recordLocked_of_isExecuted hx, h⟩
  | false =>
    obtain ⟨disk', other', done, hd, ho, hs⟩ := h.sameWays.replace h.houses h.houses'
      h.hasDirectory (ExecutionRecord.document (journal.records ++ [newRecord digest details now]))
    rw [recordLocked_of_replace hx hd, recordLocked_of_replace hx ho]
    cases done with
    | true =>
      have hrep := h.houses.replaces hd
      have hrep' := h.houses'.replaces ho
      obtain ⟨_, ha, _⟩ := hrep.file
      obtain ⟨_, ha', _⟩ := hrep'.file
      exact ⟨_, _, _, rfl, rfl, hrep.houses, hrep'.houses, Disk.hasDirectory_of_at? ha, hs,
        by rw [held_of_file ha, held_of_file ha']⟩
    | false =>
      have hdirectory := h.hasDirectory.of_sameWays h.sameWays
      exact ⟨_, _, _, rfl, rfl, h.of_spares (spares_replace h.houses h.hasDirectory hd)
        (spares_replace h.houses' hdirectory ho)⟩

theorem Alike.record (h : Alike journal.path disk other) : ∃ disk' other' answer,
    journal.record disk digest details now = (disk', answer) ∧
      journal.record other digest details now = (other', answer) ∧
        Alike journal.path disk' other' := by
  obtain ⟨locked, locked', result, hd, ho, halike⟩ := h.lock
  cases result with
  | error fault => exact ⟨_, _, _, record_of_fault hd, record_of_fault ho, halike⟩
  | ok pair =>
    obtain ⟨taken, warnings⟩ := pair
    have hp : taken.path = journal.path := ((lock_spec h.houses hd).2 taken warnings rfl).1
    rw [← hp] at halike ⊢
    obtain ⟨disk', other', ⟨after, result⟩, hd', ho', hafter⟩ :=
      halike.recordLocked digest details now
    exact ⟨_, _, _, record_of_lock hd hd', record_of_lock ho ho', hafter⟩

end

/-- A call that is to add a record, and the handle of the process that makes it. -/
structure Request where
  journal : Journal
  digest : String
  details : ExecutionDetails := {}
  now : Moment

/-- Carries calls out one after another. -/
def recordAll : Disk → List Request →
    Disk × List (Journal × List JournalWarning × Except JournalFault ExecutionRecord)
  | disk, [] => (disk, [])
  | disk, request :: rest =>
    let (disk, answer) := request.journal.record disk request.digest request.details request.now
    let (disk, answers) := recordAll disk rest
    (disk, answer :: answers)

theorem Alike.recordAll (h : Alike path disk other) {requests : List Request}
    (hp : ∀ request ∈ requests, request.journal.path = path) :
    ∃ disk' other' answers, Journal.recordAll disk requests = (disk', answers) ∧
      Journal.recordAll other requests = (other', answers) ∧ Alike path disk' other' := by
  induction requests generalizing disk other with
  | nil => exact ⟨disk, other, [], rfl, rfl, h⟩
  | cons request rest ih =>
    have hpath := hp request List.mem_cons_self
    rw [← hpath] at h
    obtain ⟨disk', other', answer, hd, ho, hone⟩ :=
      h.record request.digest request.details request.now
    rw [hpath] at hone
    obtain ⟨disk'', other'', answers, hd', ho', hall⟩ :=
      ih hone fun request hr => hp request (List.mem_cons_of_mem _ hr)
    exact ⟨disk'', other'', answer :: answers, by simp only [Journal.recordAll, hd, hd'],
      by simp only [Journal.recordAll, ho, ho'], hall⟩

end Countersign.Journal
