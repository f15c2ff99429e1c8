import Countersign.Journal.Handle
import Countersign.Proofs.Disk.Replace
import Countersign.Proofs.Journal.Document

/-! What a journal's file holds, and what each operation does to it. Only a record that is added
under the lock changes what is held, and it is added to what the file held before. -/

namespace Countersign.Journal

open ExecutionRecord (AreListable)

variable {disk other : Disk} {path : String}

theorem readFile_of_none (ha : disk.at? true path = none) :
    readFile disk path = .ok {} := by
  simp [readFile, Disk.contains, Disk.find?_eq_at?, ha]

theorem readFile_of_directory (ha : disk.at? true path = some .directory) :
    readFile disk path = .error (.inaccessible path) := by
  simp [readFile, Disk.contains, Disk.readText?, Disk.read?, Disk.find?_eq_at?, ha]

theorem readFile_of_file {number : Nat} {content : Bytes}
    (ha : disk.at? true path = some (.file number content)) :
    readFile disk path = match Text.ofUtf8? content with
      | none => .error (.inaccessible path)
      | some text =>
        match ExecutionRecord.ofDocument text with
        | .ok loaded => .ok loaded
        | .error why => .error (.unreadable path why) := by
  simp only [readFile, Disk.contains, Disk.readText?, Disk.read?, Disk.find?_eq_at?, ha]
  rfl

/-- The records that a journal's file lists, in whatever order; there are none if the path has
become that of a directory. -/
def Holds (disk : Disk) (path : String) (records : List ExecutionRecord) : Prop :=
  (∃ loaded, readFile disk path = .ok loaded ∧ ∀ r, r ∈ loaded.records ↔ r ∈ records) ∨
    (records = [] ∧ disk.at? true path = some .directory)

theorem Holds.mem_iff {records : List ExecutionRecord} (h : Holds disk path records)
    {loaded : Loaded} (hr : readFile disk path = .ok loaded)
    (r : ExecutionRecord) : r ∈ loaded.records ↔ r ∈ records := by
  rcases h with ⟨other, ho, hall⟩ | ⟨_, hd⟩
  · rw [hr] at ho
    obtain rfl := Except.ok.inj ho
    exact hall r
  · rw [readFile_of_directory hd] at hr
    exact nomatch hr

theorem readFile_of_empty {number : Nat} (ha : disk.at? true path = some (.file number [])) :
    readFile disk path = .ok {} := by
  have hempty : Text.ofUtf8? [] = some "" := Text.ofUtf8?_utf8 ""
  rw [readFile_of_file ha, hempty]
  rfl

theorem readFile_of_leavesAlone (hl : disk.LeavesAlone other path)
    {number : Nat} {content : Bytes} (ha : disk.at? true path = some (.file number content)) :
    readFile other path = readFile disk path := by
  rw [readFile_of_file ha, readFile_of_file (hl.file number content ha)]

theorem Holds.of_leavesAlone {records : List ExecutionRecord} (h : Holds disk path records)
    (hh : disk.Houses path) (hl : disk.LeavesAlone other path) : Holds other path records := by
  cases ha : disk.at? true path with
  | none =>
    have hnone : records = [] := by
      apply List.eq_nil_iff_forall_not_mem.mpr
      intro r hr
      exact absurd ((h.mem_iff (readFile_of_none ha) r).mpr hr) (by simp)
    subst hnone
    cases ho : other.at? true path with
    | none => exact .inl ⟨{}, readFile_of_none ho, by simp⟩
    | some node =>
      rcases hl.vacant ha node ho with rfl | ⟨number, rfl, _⟩
      · exact .inr ⟨rfl, ho⟩
      · exact .inl ⟨{}, readFile_of_empty ho, by simp⟩
  | some node =>
    cases node with
    | file number content =>
      have hread := readFile_of_leavesAlone hl ha
      rcases h with ⟨loaded, hr, hall⟩ | ⟨_, hd⟩
      · exact .inl ⟨loaded, hread.trans hr, hall⟩
      · rw [ha] at hd
        cases hd
    | directory =>
      rcases h with ⟨loaded, hr, _⟩ | ⟨hnone, _⟩
      · rw [readFile_of_directory ha] at hr
        exact nomatch hr
      · exact .inr ⟨hnone, hl.directory ha⟩
    | link target => exact absurd ha (hh.file.ne_link target)
    | device =>
      rcases hh.file with hv | ⟨_, _, hf, _⟩
      · rcases hv.at? true with hv | hv <;> simp [ha] at hv
      · simp [ha] at hf

theorem areListable_of_readFile {loaded : Loaded} (h : readFile disk path = .ok loaded) :
    AreListable loaded.records := by
  unfold readFile at h
  split at h
  · obtain rfl := Except.ok.inj h
    exact ExecutionRecord.areListable_nil
  · split at h
    · exact nomatch h
    · split at h
      · rename_i hd
        obtain rfl := Except.ok.inj h
        exact ExecutionRecord.areListable_of_ofDocument hd
      · exact nomatch h

/-- A document that has been put in place is read again as it was written. -/
theorem readFile_of_replaces {records : List ExecutionRecord} (hl : AreListable records)
    (hr : disk.Replaces other path (ExecutionRecord.document records)) :
    readFile other path = .ok ⟨records.mergeSort ExecutionRecord.before, []⟩ := by
  obtain ⟨number, ha, _⟩ := hr.file
  obtain ⟨text, hof, hdoc⟩ := ExecutionRecord.exists_text_document hl
  rw [readFile_of_file ha, hof]
  simp only [hdoc]

/-! ### Operations -/

variable {access : Access} {journal : Journal}

theorem Access.open_eq_ok_iff {warnings : List JournalWarning} :
    access.open disk path = .ok (journal, warnings) ↔
      journal.path = path ∧ access.readFile disk path = .ok ⟨journal.records, warnings⟩ := by
  unfold Access.open
  cases hr : access.readFile disk path with
  | error fault => simp [Except.map]
  | ok loaded =>
    obtain ⟨path', records⟩ := journal
    obtain ⟨records', warnings'⟩ := loaded
    simp only [Except.map, Except.ok.injEq, Prod.mk.injEq, Journal.mk.injEq, Loaded.mk.injEq]
    constructor
    · rintro ⟨⟨rfl, rfl⟩, rfl⟩
      exact ⟨rfl, rfl, rfl⟩
    · rintro ⟨rfl, rfl, rfl⟩
      exact ⟨⟨rfl, rfl⟩, rfl⟩

theorem open_eq_ok_iff {warnings : List JournalWarning} :
    Journal.open disk path = .ok (journal, warnings) ↔
      journal.path = path ∧ readFile disk path = .ok ⟨journal.records, warnings⟩ :=
  Access.open_eq_ok_iff

theorem reload_eq_open (journal : Journal) (disk : Disk) :
    journal.reload disk = Journal.open disk journal.path := rfl

theorem open_congr (h : readFile other path = readFile disk path) :
    Journal.open other path = Journal.open disk path :=
  congrArg (Except.map fun loaded : Loaded => ((⟨path, loaded.records⟩ : Journal), loaded.warnings)) h

/-- What is done to the files when somebody goes for the lock: directories are made, and perhaps
the file that is locked. -/
def Approached (path : String) (disk other : Disk) : Prop :=
  ∃ between, disk.Furnished between ∧ (other = between ∨
    ∃ opened, between.openFile? true (path ++ ".lock") = some (opened, other))

theorem approached_makeLock (journal : Journal) (disk : Disk) :
    Approached journal.path disk (journal.makeLock disk).1 := by
  unfold makeLock
  cases hd : Path.directory? journal.lockPath with
  | none =>
    simp only
    split
    · rename_i opened _ ho
      exact ⟨disk, .nothing, .inr ⟨opened, ho⟩⟩
    · exact ⟨disk, .nothing, .inl rfl⟩
  | some above =>
    have hf := disk.furnished_makeDirectories above
    obtain ⟨between, done, hm⟩ : ∃ between done, disk.makeDirectories above = (between, done) :=
      ⟨_, _, rfl⟩
    rw [hm] at hf
    cases done with
    | false =>
      simp only [hm]
      exact ⟨between, hf, .inl rfl⟩
    | true =>
      simp only [hm]
      split
      · rename_i opened _ ho
        exact ⟨between, hf, .inr ⟨opened, ho⟩⟩
      · exact ⟨between, hf, .inl rfl⟩

theorem Approached.leavesAlone (h : Approached path disk other) (hh : disk.Houses path) :
    disk.LeavesAlone other path := by
  obtain ⟨between, hf, rfl | ⟨_, ho⟩⟩ := h
  · exact hh.leavesAlone_of_furnished hf
  · have hleft := hh.leavesAlone_of_furnished hf
    exact hleft.trans (hleft.houses.leavesAlone_openLock ho)

theorem leavesAlone_makeLock (h : disk.Houses journal.path) :
    disk.LeavesAlone (journal.makeLock disk).1 journal.path :=
  (approached_makeLock journal disk).leavesAlone h

theorem Access.lock_cases {result : Except JournalFault (Journal × List JournalWarning)}
    (h : access.lock journal disk = (other, result)) :
    (∃ fault, access.makeLock journal disk = (other, some fault) ∧ result = .error fault) ∨
      (access.makeLock journal disk = (other, none) ∧ result = access.reload journal other) := by
  unfold Access.lock at h
  split at h
  · rename_i fault hm
    obtain ⟨rfl, rfl⟩ := Prod.mk.inj h
    exact .inl ⟨fault, hm, rfl⟩
  · rename_i hm
    obtain ⟨rfl, rfl⟩ := Prod.mk.inj h
    exact .inr ⟨hm, rfl⟩

theorem lock_cases {result : Except JournalFault (Journal × List JournalWarning)}
    (h : journal.lock disk = (other, result)) :
    (∃ fault, journal.makeLock disk = (other, some fault) ∧ result = .error fault) ∨
      (journal.makeLock disk = (other, none) ∧ result = journal.reload other) :=
  Access.lock_cases h

theorem Access.lock_of_fault {fault : JournalFault}
    (h : access.makeLock journal disk = (other, some fault)) :
    access.lock journal disk = (other, .error fault) := by
  simp only [Access.lock, h]

theorem Access.lock_of_makeLock (h : access.makeLock journal disk = (other, none)) :
    access.lock journal disk = (other, access.reload journal other) := by
  simp only [Access.lock, h]

theorem lock_of_fault {fault : JournalFault} (h : journal.makeLock disk = (other, some fault)) :
    journal.lock disk = (other, .error fault) :=
  Access.lock_of_fault h

theorem lock_of_makeLock (h : journal.makeLock disk = (other, none)) :
    journal.lock disk = (other, journal.reload other) :=
  Access.lock_of_makeLock h

theorem lock_spec (h : disk.Houses journal.path)
    {result : Except JournalFault (Journal × List JournalWarning)}
    (hl : journal.lock disk = (other, result)) : disk.LeavesAlone other journal.path ∧
      ∀ taken warnings, result = .ok (taken, warnings) → taken.path = journal.path ∧
        readFile other journal.path = .ok ⟨taken.records, warnings⟩ := by
  have hmade : disk.LeavesAlone (journal.makeLock disk).1 journal.path := leavesAlone_makeLock h
  rcases lock_cases hl with ⟨fault, hm, rfl⟩ | ⟨hm, rfl⟩
  · rw [hm] at hmade
    exact ⟨hmade, nofun⟩
  · rw [hm] at hmade
    exact ⟨hmade, fun taken warnings hr => open_eq_ok_iff.mp hr⟩

theorem isExecuted_iff {digest : String} :
    journal.isExecuted digest = true ↔
      ∃ r ∈ journal.records, r.digest = Digest.normalForm digest := by
  simp [isExecuted, find?, ExecutionRecord.find?]

theorem areListable_append_newRecord {records : List ExecutionRecord} (h : AreListable records)
    {digest : String} (hd : ∀ r ∈ records, r.digest ≠ Digest.normalForm digest)
    (details : ExecutionDetails) {now : Moment} (hn : now.IsValid) :
    AreListable (records ++ [newRecord digest details now]) := by
  refine ⟨fun r hr => ?_, ?_⟩
  · rcases List.mem_append.mp hr with hr | hr
    · exact h.proper r hr
    · rw [List.mem_singleton.mp hr]
      exact ⟨Digest.normalForm_normalForm digest, hn⟩
  · rw [List.map_append, List.nodup_append]
    refine ⟨h.distinct, by simp, fun a ha b hb hab => ?_⟩
    obtain ⟨r, hr, rfl⟩ := List.mem_map.mp ha
    simp only [List.map_cons, List.map_nil, List.mem_singleton] at hb
    exact hd r hr (hab.trans hb)

section

variable {digest : String} {details : ExecutionDetails} {now : Moment} {after : Journal}

theorem ne_of_not_isExecuted (hx : journal.isExecuted digest = false) :
    ∀ r ∈ journal.records, r.digest ≠ Digest.normalForm digest := by
  intro r hr hd
  have hex := isExecuted_iff.mpr ⟨r, hr, hd⟩
  rw [hx] at hex
  exact nomatch hex

/-- A record that is taken out again leaves the others as they were. -/
theorem without_append_newRecord (hx : journal.isExecuted digest = false) :
    ExecutionRecord.without (journal.records ++ [newRecord digest details now])
      (newRecord digest details now).digest = journal.records := by
  have hkept : journal.records.filter (·.digest ≠ Digest.normalForm digest) = journal.records :=
    List.filter_eq_self.mpr fun r hr => decide_eq_true (ne_of_not_isExecuted hx r hr)
  have hdigest : (newRecord digest details now).digest = Digest.normalForm digest := rfl
  rw [ExecutionRecord.without, List.filter_append, List.filter_singleton, hdigest, hkept]
  simp

theorem Access.recordLocked_cases {result : Except JournalFault ExecutionRecord}
    (h : access.recordLocked journal disk digest details now = (other, after, result)) :
    (journal.isExecuted digest = true ∧ other = disk ∧ after = journal ∧
        result = .error (.alreadyExecuted (Digest.normalForm digest))) ∨
      (journal.isExecuted digest = false ∧
        access.replace disk journal.path (ExecutionRecord.document
          (journal.records ++ [newRecord digest details now])) = (other, true) ∧
        after = { journal with records := journal.records ++ [newRecord digest details now] } ∧
        result = .ok (newRecord digest details now)) ∨
      (journal.isExecuted digest = false ∧
        access.replace disk journal.path (ExecutionRecord.document
          (journal.records ++ [newRecord digest details now])) = (other, false) ∧
        after = journal ∧ result = .error (.inaccessible journal.path)) := by
  unfold Access.recordLocked at h
  split at h
  · rename_i hx
    simp only [Prod.mk.injEq] at h
    obtain ⟨rfl, rfl, rfl⟩ := h
    exact .inl ⟨hx, rfl, rfl, rfl⟩
  · rename_i hx
    have hx' : journal.isExecuted digest = false := by simpa using hx
    simp only at h
    split at h
    · rename_i hr
      simp only [Prod.mk.injEq] at h
      obtain ⟨rfl, rfl, rfl⟩ := h
      exact .inr (.inl ⟨hx', hr, rfl, rfl⟩)
    · rename_i hr
      simp only [Prod.mk.injEq] at h
      obtain ⟨rfl, hafter, rfl⟩ := h
      exact .inr (.inr ⟨hx', hr, by rw [← hafter, without_append_newRecord hx'], rfl⟩)

theorem recordLocked_cases {result : Except JournalFault ExecutionRecord}
    (h : journal.recordLocked disk digest details now = (other, after, result)) :
    (journal.isExecuted digest = true ∧ other = disk ∧ after = journal ∧
        result = .error (.alreadyExecuted (Digest.normalForm digest))) ∨
      (journal.isExecuted digest = false ∧ disk.replace journal.path (ExecutionRecord.document
          (journal.records ++ [newRecord digest details now])) = (other, true) ∧
        after = { journal with records := journal.records ++ [newRecord digest details now] } ∧
        result = .ok (newRecord digest details now)) ∨
      (journal.isExecuted digest = false ∧ disk.replace journal.path (ExecutionRecord.document
          (journal.records ++ [newRecord digest details now])) = (other, false) ∧
        after = journal ∧ result = .error (.inaccessible journal.path)) :=
  Access.recordLocked_cases h

theorem Access.recordLocked_of_isExecuted (hx : journal.isExecuted digest = true) :
    access.recordLocked journal disk digest details now =
      (disk, journal, .error (.alreadyExecuted (Digest.normalForm digest))) := by
  simp only [Access.recordLocked, hx, if_true]

theorem Access.recordLocked_of_replace (hx : journal.isExecuted digest = false) {done : Bool}
    (h : access.replace disk journal.path (ExecutionRecord.document
      (journal.records ++ [newRecord digest details now])) = (other, done)) :
    access.recordLocked journal disk digest details now =
      if done then
        (other, { journal with records := journal.records ++ [newRecord digest details now] },
          .ok (newRecord digest details now))
      else (other, journal, .error (.inaccessible journal.path)) := by
  cases done <;>
    simp only [Access.recordLocked, hx, Bool.false_eq_true, if_false, if_true, h,
      without_append_newRecord hx]

theorem recordLocked_of_isExecuted (hx : journal.isExecuted digest = true) :
    journal.recordLocked disk digest details now =
      (disk, journal, .error (.alreadyExecuted (Digest.normalForm digest))) :=
  Access.recordLocked_of_isExecuted hx

theorem recordLocked_of_replace (hx : journal.isExecuted digest = false) {done : Bool}
    (h : disk.replace journal.path (ExecutionRecord.document
      (journal.records ++ [newRecord digest details now])) = (other, done)) :
    journal.recordLocked disk digest details now =
      if done then
        (other, { journal with records := journal.records ++ [newRecord digest details now] },
          .ok (newRecord digest details now))
      else (other, journal, .error (.inaccessible journal.path)) :=
  Access.recordLocked_of_replace hx h

theorem Access.record_cases {warnings : List JournalWarning}
    {result : Except JournalFault ExecutionRecord}
    (h : access.record journal disk digest details now = (other, after, warnings, result)) :
    (after = journal ∧ ∃ fault, result = .error fault ∧
        access.lock journal disk = (other, .error fault)) ∨
      ∃ between taken, access.lock journal disk = (between, .ok (taken, warnings)) ∧
        access.recordLocked taken between digest details now = (other, after, result) := by
  unfold Access.record at h
  split at h
  · rename_i hl
    obtain ⟨rfl, rfl, _, rfl⟩ := h
    exact .inl ⟨rfl, _, rfl, hl⟩
  · rename_i between taken ws hl
    simp only [Prod.mk.injEq] at h
    obtain ⟨hother, hafter, rfl, hresult⟩ := h
    exact .inr ⟨between, taken, hl, by rw [← hother, ← hafter, ← hresult]⟩

theorem record_cases {warnings : List JournalWarning}
    {result : Except JournalFault ExecutionRecord}
    (h : journal.record disk digest details now = (other, after, warnings, result)) :
    (after = journal ∧ ∃ fault, result = .error fault ∧
        journal.lock disk = (other, .error fault)) ∨
      ∃ between taken, journal.lock disk = (between, .ok (taken, warnings)) ∧
        taken.recordLocked between digest details now = (other, after, result) :=
  Access.record_cases h

theorem Access.record_of_fault {fault : JournalFault}
    (h : access.lock journal disk = (other, .error fault)) :
    access.record journal disk digest details now = (other, journal, [], .error fault) := by
  simp only [Access.record, h]

theorem Access.record_of_lock {between : Disk} {taken : Journal} {warnings : List JournalWarning}
    {result : Except JournalFault ExecutionRecord}
    (hl : access.lock journal disk = (between, .ok (taken, warnings)))
    (h : access.recordLocked taken between digest details now = (other, after, result)) :
    access.record journal disk digest details now = (other, after, warnings, result) := by
  simp only [Access.record, hl, h]

theorem record_of_fault {fault : JournalFault} (h : journal.lock disk = (other, .error fault)) :
    journal.record disk digest details now = (other, journal, [], .error fault) :=
  Access.record_of_fault h

theorem record_of_lock {between : Disk} {taken : Journal} {warnings : List JournalWarning}
    {result : Except JournalFault ExecutionRecord}
    (hl : journal.lock disk = (between, .ok (taken, warnings)))
    (h : taken.recordLocked between digest details now = (other, after, result)) :
    journal.record disk digest details now = (other, after, warnings, result) :=
  Access.record_of_lock hl h

theorem eq_newRecord_of_record {warnings : List JournalWarning} {r : ExecutionRecord}
    (h : journal.record disk digest details now = (other, after, warnings, .ok r)) :
    r = newRecord digest details now := by
  rcases record_cases h with ⟨_, _, hno, _⟩ | ⟨_, _, _, hlocked⟩
  · exact nomatch hno
  · rcases recordLocked_cases hlocked with ⟨_, _, _, hno⟩ | ⟨_, _, _, hok⟩ | ⟨_, _, _, hno⟩
    · exact nomatch hno
    · exact Except.ok.inj hok
    · exact nomatch hno

/-- A record that is added stands behind those that were there, in the file as in the handle. -/
theorem recordLocked_ok (h : disk.Houses journal.path) (hl : AreListable journal.records)
    (hn : now.IsValid) {r : ExecutionRecord}
    (hr : journal.recordLocked disk digest details now = (other, after, .ok r)) :
    (∀ x ∈ journal.records, x.digest ≠ Digest.normalForm digest) ∧
      r = newRecord digest details now ∧
      after = { journal with records := journal.records ++ [r] } ∧
      AreListable after.records ∧
      disk.Replaces other journal.path (ExecutionRecord.document after.records) := by
  rcases recordLocked_cases hr with ⟨_, _, _, hno⟩ | ⟨hx, hrep, rfl, hok⟩ | ⟨_, _, _, hno⟩
  · exact nomatch hno
  · obtain rfl := Except.ok.inj hok
    have hnot := ne_of_not_isExecuted hx
    exact ⟨hnot, rfl, rfl, areListable_append_newRecord hl hnot details hn, h.replaces hrep⟩
  · exact nomatch hno

theorem recordLocked_error (h : disk.Houses journal.path) {fault : JournalFault}
    (hr : journal.recordLocked disk digest details now = (other, after, .error fault)) :
    after = journal ∧ disk.LeavesAlone other journal.path := by
  rcases recordLocked_cases hr with ⟨_, rfl, rfl, _⟩ | ⟨_, _, _, hno⟩ | ⟨_, hrep, rfl, _⟩
  · exact ⟨rfl, .refl h⟩
  · exact nomatch hno
  · exact ⟨rfl, h.leavesAlone_replace hrep⟩

end

end Countersign.Journal
