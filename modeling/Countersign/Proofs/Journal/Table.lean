import Countersign.Proofs.Journal.Sharing

/-! The table of a journal and the document that is written of it. The document lists the records
oldest first and is one for all orders in which they were added; reading it gives the table back. -/

namespace Countersign

namespace ExecutionRecord

/-- A record that stands in front of another in the document. -/
def Precedes (a b : ExecutionRecord) : Prop :=
  a.time.instant < b.time.instant ∨ (a.time.instant = b.time.instant ∧ a.digest < b.digest)

theorem before_iff {a b : ExecutionRecord} : before a b = true ↔
    a.time.instant < b.time.instant ∨ (a.time.instant = b.time.instant ∧ a.digest ≤ b.digest) := by
  simp [before]

theorem before_trans {a b c : ExecutionRecord} (hab : before a b = true) (hbc : before b c = true) :
    before a c = true := by
  rw [before_iff] at *
  rcases hab with hab | ⟨hab, hle⟩
  · left
    rcases hbc with hbc | ⟨hbc, _⟩ <;> omega
  · rcases hbc with hbc | ⟨hbc, hle'⟩
    · left
      omega
    · exact .inr ⟨hab.trans hbc, String.le_trans hle hle'⟩

theorem before_total (a b : ExecutionRecord) : (before a b || before b a) = true := by
  rw [Bool.or_eq_true, before_iff, before_iff]
  rcases Int.lt_trichotomy a.time.instant b.time.instant with h | h | h
  · exact .inl (.inl h)
  · rcases String.le_total a.digest b.digest with hd | hd
    · exact .inl (.inr ⟨h, hd⟩)
    · exact .inr (.inr ⟨h.symm, hd⟩)
  · exact .inr (.inl h)

theorem digest_eq_of_before {a b : ExecutionRecord} (hab : before a b = true)
    (hba : before b a = true) : a.digest = b.digest := by
  rw [before_iff] at *
  rcases hab with hab | ⟨hab, hle⟩
  · rcases hba with hba | ⟨hba, _⟩ <;> omega
  · rcases hba with hba | ⟨_, hle'⟩
    · omega
    · exact String.le_antisymm hle hle'

theorem precedes_of_before {a b : ExecutionRecord} (h : before a b = true)
    (hd : a.digest ≠ b.digest) : Precedes a b := by
  rcases before_iff.mp h with hlt | ⟨heq, hle⟩
  · exact .inl hlt
  · exact .inr ⟨heq, String.not_le.mp fun hge => hd (String.le_antisymm hle hge)⟩

variable {records other : List ExecutionRecord}

theorem pairwise_before (records : List ExecutionRecord) :
    (records.mergeSort before).Pairwise fun a b => before a b = true := by
  apply List.pairwise_mergeSort
  · intro a b c
    exact before_trans
  · exact before_total

theorem AreListable.pairwise_precedes (h : AreListable records) :
    (records.mergeSort before).Pairwise Precedes := by
  have hdistinct : (records.mergeSort before).Pairwise fun a b => a.digest ≠ b.digest :=
    List.pairwise_map.mp (h.perm (List.mergeSort_perm records before).symm).distinct
  exact ((pairwise_before records).and hdistinct).imp fun hab => precedes_of_before hab.1 hab.2

/-- The order in which records are listed does not tell the one in which they were added. -/
theorem AreListable.mergeSort_eq (h : AreListable records) (hp : records.Perm other) :
    records.mergeSort before = other.mergeSort before := by
  have hr := List.mergeSort_perm records before
  have ho := List.mergeSort_perm other before
  refine List.Perm.eq_of_pairwise (fun a b ha hb hab hba => ?_) (pairwise_before records)
    (pairwise_before other) (hr.trans (hp.trans ho.symm))
  exact h.eq_of_digest (hr.mem_iff.mp ha) (hp.mem_iff.mpr (ho.mem_iff.mp hb))
    (digest_eq_of_before hab hba)

theorem AreListable.perm_of_mem_iff (h : AreListable records)
    (hd : (other.map (·.digest)).Nodup) (hm : ∀ r, r ∈ other ↔ r ∈ records) :
    records.Perm other :=
  (List.perm_ext_iff_of_nodup h.distinct.of_map hd.of_map).mpr fun r => (hm r).symm

theorem AreListable.find?_eq (h : AreListable records) (hp : records.Perm other) (digest : String) :
    find? other digest = find? records digest := by
  apply Option.ext
  intro r
  rw [find?_eq_some_iff h, find?_eq_some_iff (h.perm hp), hp.mem_iff]

end ExecutionRecord

namespace Journal

open ExecutionRecord (AreListable Precedes)

/-- A journal that somebody can have in hand. Between two operations the files may have become
any others. -/
inductive Reached : Journal → Prop where
  | opened {disk : Disk} {path : String} {journal : Journal} {warnings : List JournalWarning}
      (h : Journal.open disk path = .ok (journal, warnings)) : Reached journal
  | reloaded {disk : Disk} {journal fresh : Journal} {warnings : List JournalWarning}
      (hj : Reached journal) (h : journal.reload disk = .ok (fresh, warnings)) : Reached fresh
  | locked {disk other : Disk} {journal taken : Journal} {warnings : List JournalWarning}
      (hj : Reached journal) (h : journal.lock disk = (other, .ok (taken, warnings))) :
      Reached taken
  | recordedLocked {disk other : Disk} {journal after : Journal} {digest : String}
      {details : ExecutionDetails} {now : Moment} {result : Except JournalFault ExecutionRecord}
      (hj : Reached journal) (hn : now.IsValid)
      (h : journal.recordLocked disk digest details now = (other, after, result)) : Reached after
  | recorded {disk other : Disk} {journal after : Journal} {digest : String}
      {details : ExecutionDetails} {now : Moment} {warnings : List JournalWarning}
      {result : Except JournalFault ExecutionRecord} (hj : Reached journal) (hn : now.IsValid)
      (h : journal.record disk digest details now = (other, after, warnings, result)) :
      Reached after

variable {disk other : Disk} {journal taken after fresh : Journal}
  {warnings : List JournalWarning} {digest : String} {details : ExecutionDetails} {now : Moment}

theorem areListable_of_open {path : String}
    (h : Journal.open disk path = .ok (journal, warnings)) : AreListable journal.records :=
  areListable_of_readFile (open_eq_ok_iff.mp h).2

theorem areListable_of_lock (h : journal.lock disk = (other, .ok (taken, warnings))) :
    AreListable taken.records := by
  rcases lock_cases h with ⟨_, _, hno⟩ | ⟨_, hr⟩
  · exact nomatch hno
  · exact areListable_of_open hr.symm

/-- Whether or not the file can be replaced, the handle is left with a table that can be listed. -/
theorem areListable_of_recordLocked (hl : AreListable journal.records) (hn : now.IsValid)
    {result : Except JournalFault ExecutionRecord}
    (h : journal.recordLocked disk digest details now = (other, after, result)) :
    AreListable after.records := by
  rcases recordLocked_cases h with ⟨_, _, rfl, _⟩ | ⟨hx, _, rfl, _⟩ | ⟨_, _, rfl, _⟩
  · exact hl
  · exact areListable_append_newRecord hl (ne_of_not_isExecuted hx) details hn
  · exact hl

/-- Every operation leaves a table that can be listed. -/
theorem Reached.areListable (h : Reached journal) : AreListable journal.records := by
  induction h with
  | opened h => exact areListable_of_open h
  | reloaded _ h _ => exact areListable_of_open h
  | locked _ h _ => exact areListable_of_lock h
  | recordedLocked _ hn h ih => exact areListable_of_recordLocked ih hn h
  | recorded _ hn h ih =>
    rcases record_cases h with ⟨rfl, _⟩ | ⟨_, _, hl, hr⟩
    · exact ih
    · exact areListable_of_recordLocked (areListable_of_lock hl) hn hr

/-- Two handles of one journal that give the same answers. -/
structure SameTable (journal fresh : Journal) : Prop where
  path : fresh.path = journal.path
  perm : journal.records.Perm fresh.records
  find? : ∀ digest, fresh.find? digest = journal.find? digest
  list : fresh.list = journal.list

theorem sameTable_of_perm (h : AreListable journal.records) (hp : fresh.path = journal.path)
    (hr : journal.records.Perm fresh.records) : SameTable journal fresh :=
  ⟨hp, hr, fun digest => h.find?_eq hr (Digest.normalForm digest), (h.mergeSort_eq hr).symm⟩

theorem exists_reload_of_replaces (hl : AreListable journal.records)
    (hr : disk.Replaces other journal.path (ExecutionRecord.document journal.records)) :
    ∃ fresh, journal.reload other = .ok (fresh, []) ∧ SameTable journal fresh :=
  ⟨⟨journal.path, journal.records.mergeSort ExecutionRecord.before⟩,
    open_eq_ok_iff.mpr ⟨rfl, readFile_of_replaces hl hr⟩,
    sameTable_of_perm hl rfl (List.mergeSort_perm _ _).symm⟩

theorem exists_reload_of_recordLocked (hl : AreListable journal.records)
    (hh : disk.Houses journal.path) (hn : now.IsValid) {r : ExecutionRecord}
    (h : journal.recordLocked disk digest details now = (other, after, .ok r)) :
    ∃ fresh, after.reload other = .ok (fresh, []) ∧ SameTable after fresh := by
  obtain ⟨_, _, rfl, hafter, hrep⟩ := recordLocked_ok hh hl hn h
  exact exists_reload_of_replaces hafter hrep

theorem exists_reload_of_record (hh : disk.Houses journal.path) (hn : now.IsValid)
    {r : ExecutionRecord}
    (h : journal.record disk digest details now = (other, after, warnings, .ok r)) :
    ∃ fresh, after.reload other = .ok (fresh, []) ∧ SameTable after fresh := by
  rcases record_cases h with ⟨_, fault, hr, _⟩ | ⟨between, taken, hl, hr⟩
  · exact nomatch hr
  · obtain ⟨hleft, hall⟩ := lock_spec hh hl
    obtain ⟨hp, _⟩ := hall taken warnings rfl
    exact exists_reload_of_recordLocked (areListable_of_lock hl) (hp ▸ hleft.houses) hn hr

/-- Every record of a journal that has been reached stands under its own digest, and what is
written of the table gives it back: the document is a text from which the same table is read,
without a warning; it lists the records strictly in the order of time and digest, and whoever has
the same records writes the same bytes. After a record has been added, the file holds the table. -/
theorem Reached.table_is_read_back (h : Reached journal) :
    (∀ r ∈ journal.records, Digest.normalForm r.digest = r.digest ∧
      journal.find? r.digest = some r) ∧
    (∃ text records, Text.ofUtf8? (ExecutionRecord.document journal.records) = some text ∧
      ExecutionRecord.ofDocument text = .ok ⟨records, []⟩ ∧
      SameTable journal ⟨journal.path, records⟩) ∧
    (∃ listed, ExecutionRecord.document journal.records =
        (Json.object [(Text.utf8 "executed", .array (listed.map ExecutionRecord.toJson))]).pretty 0 ∧
      journal.records.Perm listed ∧ listed.Pairwise Precedes) ∧
    (∀ records : List ExecutionRecord, (records.map (·.digest)).Nodup →
      (∀ r, r ∈ records ↔ r ∈ journal.records) →
        ExecutionRecord.document records = ExecutionRecord.document journal.records) ∧
    (∀ disk other digest details now after r, disk.Houses journal.path → now.IsValid →
      (journal.recordLocked disk digest details now = (other, after, .ok r) ∨
        ∃ warnings, journal.record disk digest details now = (other, after, warnings, .ok r)) →
          ∃ fresh, after.reload other = .ok (fresh, []) ∧ SameTable after fresh) := by
  have hl := h.areListable
  have hsorted := (List.mergeSort_perm journal.records ExecutionRecord.before).symm
  refine ⟨fun r hr => ?_, ?_, ?_, fun records hd hm => ?_,
    fun disk other digest details now after r hh hn hr => ?_⟩
  · have hproper := (hl.proper r hr).digest
    refine ⟨hproper, ?_⟩
    rw [find?, hproper]
    exact (ExecutionRecord.find?_eq_some_iff hl).mpr ⟨hr, rfl⟩
  · obtain ⟨text, hof, hdoc⟩ := ExecutionRecord.exists_text_document hl
    exact ⟨text, _, hof, hdoc, sameTable_of_perm hl rfl hsorted⟩
  · exact ⟨_, rfl, hsorted, hl.pairwise_precedes⟩
  · have hp := hl.perm_of_mem_iff hd hm
    rw [ExecutionRecord.document, ExecutionRecord.document, hl.mergeSort_eq hp]
  · rcases hr with hr | ⟨warnings, hr⟩
    · exact exists_reload_of_recordLocked hl hh hn hr
    · exact exists_reload_of_record hh hn hr

/-! ### A first record -/

theorem lock_singleFile :
    (⟨"j", []⟩ : Journal).lock (Sharing.singleFile []) =
      (Sharing.lockedFile [], .ok (⟨"j", []⟩, [])) := by
  have ha := (Sharing.leavesAlone_lockedFile []).file 0 [] (Sharing.houses_singleFile []).2
  have hreload : (⟨"j", []⟩ : Journal).reload (Sharing.lockedFile []) = .ok (⟨"j", []⟩, []) :=
    open_eq_ok_iff.mpr ⟨rfl, readFile_of_empty ha⟩
  rw [lock_of_makeLock (Sharing.makeLock_singleFile [] []), hreload]

theorem exists_record_singleFile (digest : String) (details : ExecutionDetails) (now : Moment) :
    ∃ other, (⟨"j", []⟩ : Journal).record (Sharing.singleFile []) digest details now =
      (other, ⟨"j", [newRecord digest details now]⟩, [], .ok (newRecord digest details now)) := by
  have hnew : (⟨"j", []⟩ : Journal).isExecuted digest = false := rfl
  obtain ⟨other, hother⟩ := Sharing.exists_replace_lockedFile []
    (ExecutionRecord.document [newRecord digest details now])
  exact ⟨other, record_of_lock lock_singleFile (recordLocked_of_replace hnew hother)⟩

/-- A journal with no records is opened, one is added, and the file then holds it. -/
theorem first_record_is_read_back : ∃ journal after fresh other r,
    Journal.open (Sharing.singleFile []) "j" = .ok (journal, []) ∧
      journal.record (Sharing.singleFile []) "0xAB" { approvals := some [""], note := some "é\n" }
        Moment.epoch = (other, after, [], .ok r) ∧
      after.reload other = .ok (fresh, []) ∧ fresh.find? "ab" = some r := by
  obtain ⟨hh, ha⟩ := Sharing.houses_singleFile []
  have hopen : Journal.open (Sharing.singleFile []) "j" = .ok (⟨"j", []⟩, []) :=
    open_eq_ok_iff.mpr ⟨rfl, readFile_of_empty ha⟩
  obtain ⟨other, hr⟩ := exists_record_singleFile "0xAB"
    { approvals := some [""], note := some "é\n" } Moment.epoch
  have hreached : Reached ⟨"j", []⟩ := .opened hopen
  obtain ⟨_, _, _, _, hreload⟩ := hreached.table_is_read_back
  obtain ⟨fresh, hfresh, hsame⟩ :=
    hreload _ _ _ _ _ _ _ hh Moment.isValid_epoch (.inr ⟨[], hr⟩)
  obtain ⟨hall, _⟩ :=
    (Reached.recorded hreached Moment.isValid_epoch hr).table_is_read_back
  have hnormal : Digest.normalForm "ab" = Digest.normalForm "0xab" := by decide +kernel
  refine ⟨_, _, fresh, other, _, hopen, hr, hfresh, ?_⟩
  rw [hsame.find?, Journal.find?, hnormal, ← Journal.find?]
  exact (hall _ (List.mem_singleton_self _)).2

end Journal
end Countersign
