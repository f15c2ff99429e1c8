import Countersign.Proofs.Disk.Spelling
import Countersign.Proofs.Journal.Holding

/-! Adding records. Under the lock the handle knows exactly the records of the file, so that the
document it writes has all of them and the new one. -/

namespace Countersign.Journal

open ExecutionRecord (AreListable)

/-- A journal stands at the path, and these are its records. -/
structure Stands (disk : Disk) (path : String) (records : List ExecutionRecord) : Prop where
  houses : disk.Houses path
  holds : Holds disk path records
  listable : AreListable records

/-- A handle of the journal at the path that knows exactly these records. -/
structure Mirrors (journal : Journal) (path : String) (records : List ExecutionRecord) : Prop where
  path : journal.path = path
  listable : AreListable journal.records
  mem_iff : ∀ r, r ∈ journal.records ↔ r ∈ records

variable {disk other : Disk} {path : String} {records : List ExecutionRecord}
  {journal after : Journal}

theorem stands_of_readFile (h : disk.Houses path) {loaded : Loaded}
    (hr : readFile disk path = .ok loaded) : Stands disk path loaded.records :=
  ⟨h, .inl ⟨loaded, hr, fun _ => Iff.rfl⟩, areListable_of_readFile hr⟩

theorem Stands.of_leavesAlone (h : Stands disk path records) (hl : disk.LeavesAlone other path) :
    Stands other path records :=
  ⟨hl.houses, h.holds.of_leavesAlone h.houses hl, h.listable⟩

theorem readFile_of_leadAlike {path' : String} (h : Disk.LeadAlike path path') {loaded : Loaded}
    (hr : readFile disk path = .ok loaded) : readFile disk path' = .ok loaded := by
  have hcontains : disk.contains path = disk.contains path' := by
    rw [Disk.contains, Disk.contains, Disk.find?_eq_at?, Disk.find?_eq_at?, h.at?]
  unfold readFile at hr ⊢
  rw [hcontains, h.readText?] at hr
  cases hc : disk.contains path' with
  | false => simpa [hc] using hr
  | true =>
    cases ht : disk.readText? path' with
    | none => simp [hc, ht] at hr
    | some text =>
      cases hd : ExecutionRecord.ofDocument text with
      | ok found => simpa [hc, ht, hd] using hr
      | error why => simp [hc, ht, hd] at hr

/-- Under another text of the path it is the same journal. -/
theorem Stands.of_leadAlike {path' : String} (h : Stands disk path records)
    (hp : Disk.LeadAlike path path') : Stands disk path' records := by
  refine ⟨hp.houses h.houses, ?_, h.listable⟩
  rcases h.holds with ⟨loaded, hr, hall⟩ | ⟨hnone, hd⟩
  · exact .inl ⟨loaded, readFile_of_leadAlike hp hr, hall⟩
  · exact .inr ⟨hnone, (hp.at? disk true).symm.trans hd⟩

theorem Stands.mem_iff (h : Stands disk path records) {loaded : Loaded}
    (hr : readFile disk path = .ok loaded) (r : ExecutionRecord) :
    r ∈ loaded.records ↔ r ∈ records := h.holds.mem_iff hr r

theorem Stands.mirrors_of_open (h : Stands disk path records) {warnings : List JournalWarning}
    (ho : Journal.open disk path = .ok (journal, warnings)) : Mirrors journal path records := by
  obtain ⟨hp, hr⟩ := open_eq_ok_iff.mp ho
  exact ⟨hp, areListable_of_readFile hr, fun r => h.mem_iff hr r⟩

theorem Stands.exists_readFile (h : Stands disk path records)
    (hd : disk.at? true path ≠ some .directory) :
    ∃ loaded, readFile disk path = .ok loaded ∧ ∀ r, r ∈ loaded.records ↔ r ∈ records := by
  rcases h.holds with hl | ⟨_, hdir⟩
  · exact hl
  · exact absurd hdir hd

theorem Stands.exists_readFile_of_mem (h : Stands disk path records) {r : ExecutionRecord}
    (hr : r ∈ records) : ∃ loaded, readFile disk path = .ok loaded ∧ r ∈ loaded.records := by
  rcases h.holds with ⟨loaded, hl, hall⟩ | ⟨hnone, _⟩
  · exact ⟨loaded, hl, (hall r).mpr hr⟩
  · rw [hnone] at hr
    exact nomatch hr

theorem Stands.exists_file_of_mem (h : Stands disk path records) {r : ExecutionRecord}
    (hr : r ∈ records) : ∃ number content, disk.at? true path = some (.file number content) := by
  obtain ⟨loaded, hl, hmem⟩ := h.exists_readFile_of_mem hr
  rcases h.houses.file with hv | ⟨number, content, ha, _⟩
  · rcases hv.at? true with ha | ha
    · rw [readFile_of_none ha] at hl
      obtain rfl := Except.ok.inj hl
      exact nomatch hmem
    · rw [readFile_of_directory ha] at hl
      exact nomatch hl
  · exact ⟨number, content, ha⟩

theorem Mirrors.isExecuted_iff (h : Mirrors journal path records) {digest : String} :
    journal.isExecuted digest = true ↔ ∃ r ∈ records, r.digest = Digest.normalForm digest := by
  simp only [Journal.isExecuted_iff, h.mem_iff]

theorem Stands.lock (h : Stands disk path records) (hp : journal.path = path)
    {result : Except JournalFault (Journal × List JournalWarning)}
    (hl : journal.lock disk = (other, result)) : disk.LeavesAlone other path ∧
      ∀ taken warnings, result = .ok (taken, warnings) → Mirrors taken path records := by
  subst hp
  obtain ⟨hleft, hall⟩ := lock_spec h.houses hl
  refine ⟨hleft, fun taken warnings hr => ?_⟩
  obtain ⟨hp, hread⟩ := hall taken warnings hr
  exact ⟨hp, areListable_of_readFile hread, fun r => (h.of_leavesAlone hleft).mem_iff hread r⟩

section

variable {digest : String} {details : ExecutionDetails} {now : Moment} {r : ExecutionRecord}

/-- Under the lock, the new record goes to the file behind those that it had. -/
theorem Stands.recordLocked (h : Stands disk path records) (hm : Mirrors journal path records)
    (hn : now.IsValid)
    (hr : journal.recordLocked disk digest details now = (other, after, .ok r)) :
    r = newRecord digest details now ∧ Stands other path (records ++ [r]) ∧
      Mirrors after path (records ++ [r]) ∧
      disk.Replaces other path (ExecutionRecord.document after.records) := by
  obtain ⟨rfl, hlist, hmem⟩ := hm
  obtain ⟨hnot, hrec, rfl, hafter, hrep⟩ := recordLocked_ok h.houses hlist hn hr
  have hread := readFile_of_replaces hafter hrep
  have hsame : ∀ x, x ∈ journal.records ++ [r] ↔ x ∈ records ++ [r] := fun x => by simp [hmem x]
  have hlistable : AreListable (records ++ [r]) := by
    rw [hrec]
    exact areListable_append_newRecord h.listable (fun x hx => hnot x ((hmem x).mpr hx)) details hn
  refine ⟨hrec, ⟨hrep.houses, .inl ⟨_, hread, fun x => ?_⟩, hlistable⟩, ⟨rfl, hafter, hsame⟩, hrep⟩
  simp only [List.mem_mergeSort]
  exact hsame x

theorem Stands.recordLocked_error (h : Stands disk path records) (hp : journal.path = path)
    {fault : JournalFault}
    (hr : journal.recordLocked disk digest details now = (other, after, .error fault)) :
    after = journal ∧ disk.LeavesAlone other path := by
  subst hp
  exact Journal.recordLocked_error h.houses hr

theorem Stands.record (h : Stands disk path records) (hp : journal.path = path)
    (hn : now.IsValid) {warnings : List JournalWarning}
    (hr : journal.record disk digest details now = (other, after, warnings, .ok r)) :
    r = newRecord digest details now ∧ Stands other path (records ++ [r]) ∧
      Mirrors after path (records ++ [r]) ∧
      disk.Replaces other path (ExecutionRecord.document after.records) := by
  rcases record_cases hr with ⟨_, fault, hno, _⟩ | ⟨between, taken, hl, hlocked⟩
  · exact nomatch hno
  · obtain ⟨hleft, hall⟩ := h.lock hp hl
    obtain ⟨hrec, hstands, hmirrors, hrep⟩ :=
      (h.of_leavesAlone hleft).recordLocked (hall taken warnings rfl) hn hlocked
    exact ⟨hrec, hstands, hmirrors, hleft.replaces hrep⟩

theorem Stands.record_error (h : Stands disk path records) (hp : journal.path = path)
    {warnings : List JournalWarning} {fault : JournalFault}
    (hr : journal.record disk digest details now = (other, after, warnings, .error fault)) :
    disk.LeavesAlone other path ∧ (after = journal ∨ Mirrors after path records) := by
  rcases record_cases hr with ⟨rfl, _, _, hl⟩ | ⟨between, taken, hl, hlocked⟩
  · exact ⟨(h.lock hp hl).1, .inl rfl⟩
  · obtain ⟨hleft, hall⟩ := h.lock hp hl
    have hm := hall taken warnings rfl
    obtain ⟨rfl, hleft'⟩ := (h.of_leavesAlone hleft).recordLocked_error hm.path hlocked
    exact ⟨hleft.trans hleft', .inr hm⟩

end

end Countersign.Journal
