import Countersign.Proofs.Journal.Leftover

/-! Processes that share a journal. Each of them has a handle of its own, which may be out of date;
whatever they do and in whatever order, an execution is recorded once and stays recorded. -/

namespace Countersign.Journal

/-- The files, the handles of the processes, and the one that holds the lock. -/
structure Sharing where
  disk : Disk
  handle : Nat → Option Journal := fun _ => none
  holder : Option Nat := none

namespace Sharing

def setHandle (s : Sharing) (i : Nat) (journal : Journal) : Sharing :=
  { s with handle := fun k => if k = i then some journal else s.handle k }

/-- What is carried out of a replacement by that content before it breaks off. -/
def IsCut (content : Bytes) (steps : List FileStep) : Prop :=
  ∃ written count, written <+: content ∧ count < 5 ∧ steps = (replacement written).take count

/-- One step of one process. The text under which an execution has been recorded, and its record,
stand at the steps that record one. -/
inductive Step (path : String) : Sharing → Option (String × ExecutionRecord) → Sharing → Prop where
  | opened {s : Sharing} {journal : Journal} {warnings : List JournalWarning} (i : Nat)
      (h : Journal.open s.disk path = .ok (journal, warnings)) :
      Step path s none (s.setHandle i journal)
  | reloaded {s : Sharing} {journal fresh : Journal} {warnings : List JournalWarning} (i : Nat)
      (hi : s.handle i = some journal) (h : journal.reload s.disk = .ok (fresh, warnings)) :
      Step path s none (s.setHandle i fresh)
  /-- Makes the file that is locked, and then waits or fails. -/
  | approached {s : Sharing} {journal : Journal} (i : Nat) (hi : s.handle i = some journal) :
      Step path s none { s with disk := (journal.makeLock s.disk).1 }
  | locked {s : Sharing} {disk : Disk} {journal fresh : Journal} {warnings : List JournalWarning}
      (i : Nat) (hi : s.handle i = some journal) (hfree : s.holder = none)
      (h : journal.lock s.disk = (disk, .ok (fresh, warnings))) :
      Step path s none ({ s with disk, holder := some i }.setHandle i fresh)
  | released {s : Sharing} : Step path s none { s with holder := none }
  | added {s : Sharing} {disk : Disk} {journal after : Journal} {digest : String}
      {details : ExecutionDetails} {now : Moment} {r : ExecutionRecord} (i : Nat)
      (hi : s.handle i = some journal) (hheld : s.holder = some i) (hn : now.IsValid)
      (h : journal.recordLocked s.disk digest details now = (disk, after, .ok r)) :
      Step path s (some (digest, r)) ({ s with disk }.setHandle i after)
  | refused {s : Sharing} {disk : Disk} {journal after : Journal} {digest : String}
      {details : ExecutionDetails} {now : Moment} {fault : JournalFault} (i : Nat)
      (hi : s.handle i = some journal) (hheld : s.holder = some i)
      (h : journal.recordLocked s.disk digest details now = (disk, after, .error fault)) :
      Step path s none ({ s with disk }.setHandle i after)
  /-- Writing fails halfway, and the handle stays as it was. -/
  | brokenOff {s : Sharing} {journal : Journal} {digest : String} {details : ExecutionDetails}
      {now : Moment} {steps : List FileStep} (i : Nat) (hi : s.handle i = some journal)
      (hheld : s.holder = some i)
      (h : IsCut (ExecutionRecord.document (journal.records ++ [newRecord digest details now]))
        steps) :
      Step path s none { s with disk := (FileStep.run path s.disk steps).1 }
  | recorded {s : Sharing} {disk : Disk} {journal after : Journal} {digest : String}
      {details : ExecutionDetails} {now : Moment} {warnings : List JournalWarning}
      {r : ExecutionRecord} (i : Nat) (hi : s.handle i = some journal) (hfree : s.holder = none)
      (hn : now.IsValid)
      (h : journal.record s.disk digest details now = (disk, after, warnings, .ok r)) :
      Step path s (some (digest, r)) ({ s with disk }.setHandle i after)
  | unrecorded {s : Sharing} {disk : Disk} {journal after : Journal} {digest : String}
      {details : ExecutionDetails} {now : Moment} {warnings : List JournalWarning}
      {fault : JournalFault} (i : Nat) (hi : s.handle i = some journal) (hfree : s.holder = none)
      (h : journal.record s.disk digest details now = (disk, after, warnings, .error fault)) :
      Step path s none ({ s with disk }.setHandle i after)
  /-- Other files change, or a call that fails leaves something behind. -/
  | elsewhere {s : Sharing} {disk : Disk} (h : s.disk.LeavesAlone disk path) :
      Step path s none { s with disk }

/-- A run, with the executions that have been recorded in it. -/
inductive Run (path : String) : Sharing → List (String × ExecutionRecord) → Sharing → Prop where
  | start (s : Sharing) : Run path s [] s
  | step {s between after : Sharing} {past : List (String × ExecutionRecord)}
      {event : Option (String × ExecutionRecord)} (h : Run path s past between)
      (hs : Step path between event after) : Run path s (past ++ event.toList) after

/-- The file holds these records; no handle knows of others, and the one under the lock of all. -/
structure Consistent (path : String) (records : List ExecutionRecord) (s : Sharing) : Prop where
  stands : Stands s.disk path records
  ofPath : ∀ i journal, s.handle i = some journal → journal.path = path
  subset : ∀ i journal, s.handle i = some journal → ∀ r ∈ journal.records, r ∈ records
  held : ∀ i, s.holder = some i → ∃ journal, s.handle i = some journal ∧
    Mirrors journal path records

variable {path : String} {records : List ExecutionRecord} {s after : Sharing}

theorem Consistent.of_leavesAlone (h : Consistent path records s) {disk : Disk}
    (hl : s.disk.LeavesAlone disk path) : Consistent path records { s with disk } :=
  ⟨h.stands.of_leavesAlone hl, h.ofPath, h.subset, h.held⟩

/-- The file holds more records, and one handle is exchanged for one that knows them all. A handle
under the lock has to be that one, unless there is nothing more to know. -/
theorem Consistent.exchange (h : Consistent path records s) {disk : Disk} {journal : Journal}
    {grown : List ExecutionRecord} (hs : Stands disk path grown) (hm : Mirrors journal path grown)
    (hsub : ∀ r ∈ records, r ∈ grown) {i : Nat}
    (hi : ∀ k, s.holder = some k → k = i ∨ grown = records) :
    Consistent path grown ({ s with disk }.setHandle i journal) := by
  refine ⟨hs, fun k other hk => ?_, fun k other hk r hr => ?_, fun k hk => ?_⟩
  · simp only [Sharing.setHandle] at hk
    split at hk
    · obtain rfl := Option.some.inj hk
      exact hm.path
    · exact h.ofPath k other hk
  · simp only [Sharing.setHandle] at hk
    split at hk
    · obtain rfl := Option.some.inj hk
      exact (hm.mem_iff r).mp hr
    · exact hsub r (h.subset k other hk r hr)
  · by_cases hki : k = i
    · exact ⟨journal, by simp [Sharing.setHandle, hki], hm⟩
    · obtain ⟨other, ho, hmo⟩ := h.held k hk
      obtain rfl := (hi k hk).resolve_left hki
      exact ⟨other, by simp [Sharing.setHandle, hki, ho], hmo⟩

theorem Consistent.setHandle (h : Consistent path records s) {journal : Journal}
    (hm : Mirrors journal path records) (i : Nat) :
    Consistent path records (s.setHandle i journal) :=
  h.exchange h.stands hm (fun _ hr => hr) (fun _ _ => .inr rfl)

/-- A record that the file has got, and the one handle that knows of it. -/
theorem Consistent.append (h : Consistent path records s) {disk : Disk} {journal : Journal}
    {r : ExecutionRecord} (hs : Stands disk path (records ++ [r]))
    (hm : Mirrors journal path (records ++ [r])) {i : Nat}
    (hi : s.holder = none ∨ s.holder = some i) :
    Consistent path (records ++ [r]) ({ s with disk }.setHandle i journal) := by
  refine h.exchange hs hm (fun _ hx => List.mem_append_left _ hx) (fun k hk => .inl ?_)
  rw [hk] at hi
  rcases hi with hi | hi
  · exact nomatch hi
  · exact Option.some.inj hi

theorem setHandle_self {i : Nat} {journal : Journal} (h : s.handle i = some journal) :
    s.setHandle i journal = s := by
  have hf : (fun k => if k = i then some journal else s.handle k) = s.handle := by
    funext k
    split
    · rename_i hk
      rw [hk, h]
    · rfl
  rw [Sharing.setHandle, hf]

theorem IsCut.not_mem {content : Bytes} {steps : List FileStep} (h : IsCut content steps) :
    FileStep.rename ∉ steps := by
  obtain ⟨written, count, _, hlt, rfl⟩ := h
  have hcount : count = 0 ∨ count = 1 ∨ count = 2 ∨ count = 3 ∨ count = 4 := by omega
  rcases hcount with rfl | rfl | rfl | rfl | rfl <;> simp [replacement]

theorem Consistent.step_none (h : Consistent path records s) (hs : Step path s none after) :
    Consistent path records after ∧ s.disk.LeavesAlone after.disk path := by
  have hrefl := Disk.LeavesAlone.refl h.stands.houses
  cases hs with
  | opened i ho => exact ⟨h.setHandle (h.stands.mirrors_of_open ho) i, hrefl⟩
  | @reloaded journal fresh warnings i hi ho =>
    rw [reload_eq_open, h.ofPath i journal hi] at ho
    exact ⟨h.setHandle (h.stands.mirrors_of_open ho) i, hrefl⟩
  | @approached journal i hi =>
    have hp := h.ofPath i journal hi
    subst hp
    have hleft := leavesAlone_makeLock h.stands.houses
    exact ⟨h.of_leavesAlone hleft, hleft⟩
  | @locked disk journal fresh warnings i hi hfree hl =>
    obtain ⟨hleft, hall⟩ := h.stands.lock (h.ofPath i journal hi) hl
    have hm := hall fresh warnings rfl
    have hset := (h.of_leavesAlone hleft).setHandle hm i
    refine ⟨⟨hset.stands, hset.ofPath, hset.subset, fun k hk => ?_⟩, hleft⟩
    obtain rfl : i = k := Option.some.inj hk
    exact ⟨fresh, by simp [Sharing.setHandle], hm⟩
  | released => exact ⟨⟨h.stands, h.ofPath, h.subset, fun _ hh => nomatch hh⟩, hrefl⟩
  | @refused disk journal after digest details now fault i hi hheld hr =>
    obtain ⟨rfl, hleft⟩ := h.stands.recordLocked_error (h.ofPath i journal hi) hr
    rw [setHandle_self (s := { s with disk }) hi]
    exact ⟨h.of_leavesAlone hleft, hleft⟩
  | @brokenOff journal digest details now steps i hi hheld hcut =>
    have hleft := FileStep.run_leavesAlone h.stands.houses hcut.not_mem
    exact ⟨h.of_leavesAlone hleft, hleft⟩
  | @unrecorded disk journal after digest details now warnings fault i hi hfree hr =>
    obtain ⟨hleft, rfl | hm⟩ := h.stands.record_error (h.ofPath i journal hi) hr
    · rw [setHandle_self (s := { s with disk }) hi]
      exact ⟨h.of_leavesAlone hleft, hleft⟩
    · exact ⟨(h.of_leavesAlone hleft).setHandle hm i, hleft⟩
  | elsewhere hl => exact ⟨h.of_leavesAlone hl, hl⟩

/-- A step that records an execution adds its record, and no other. -/
theorem Consistent.step_some (h : Consistent path records s) {digest : String} {r : ExecutionRecord}
    (hs : Step path s (some (digest, r)) after) : Consistent path (records ++ [r]) after ∧
      r.digest = Digest.normalForm digest ∧ ∃ content, s.disk.Replaces after.disk path content := by
  cases hs with
  | @added disk journal after _ details now _ i hi hheld hn hr =>
    obtain ⟨other, ho, hm⟩ := h.held i hheld
    obtain rfl : other = journal := Option.some.inj (ho.symm.trans hi)
    obtain ⟨rfl, hstands, hmirrors, hrep⟩ := h.stands.recordLocked hm hn hr
    exact ⟨h.append hstands hmirrors (.inr hheld), rfl, _, hrep⟩
  | @recorded disk journal after _ details now warnings _ i hi hfree hn hr =>
    obtain ⟨rfl, hstands, hmirrors, hrep⟩ := h.stands.record (h.ofPath i journal hi) hn hr
    exact ⟨h.append hstands hmirrors (.inl hfree), rfl, _, hrep⟩

/-- Along a run the file keeps what it had and gets what is recorded. -/
theorem Consistent.run (h : Consistent path records s) {past : List (String × ExecutionRecord)}
    (hr : Run path s past after) : Consistent path (records ++ past.map (·.2)) after ∧
      ∀ e ∈ past, e.2.digest = Digest.normalForm e.1 := by
  induction hr with
  | start => exact ⟨by simpa using h, by simp⟩
  | @step between after past event hr hs ih =>
    obtain ⟨hb, hdigest⟩ := ih
    cases event with
    | none => exact ⟨by simpa using (hb.step_none hs).1, by simpa using hdigest⟩
    | some e =>
      obtain ⟨hafter, hd, _⟩ := hb.step_some hs
      refine ⟨by simpa using hafter, fun e' he => ?_⟩
      rcases List.mem_append.mp he with he | he
      · exact hdigest e' he
      · obtain rfl : e' = e := by simpa using he
        exact hd

theorem Consistent.run_file (h : Consistent path records s) {past : List (String × ExecutionRecord)}
    (hr : Run path s past after)
    (hf : ∃ number content, s.disk.at? true path = some (.file number content)) :
    ∃ number content, after.disk.at? true path = some (.file number content) := by
  induction hr with
  | start => exact hf
  | @step between after past event hr hs ih =>
    obtain ⟨number, content, ha⟩ := ih
    have hb := (h.run hr).1
    cases event with
    | none => exact ⟨number, content, (hb.step_none hs).2.file number content ha⟩
    | some e =>
      obtain ⟨_, _, content', hrep⟩ := hb.step_some hs
      obtain ⟨number', ha', _⟩ := hrep.file
      exact ⟨number', content', ha'⟩

/-- The journal can be read, and nobody has a handle of it yet. -/
structure IsStart (path : String) (loaded : Loaded) (s : Sharing) : Prop where
  houses : s.disk.Houses path
  reads : readFile s.disk path = .ok loaded
  handle : ∀ i, s.handle i = none
  holder : s.holder = none

theorem IsStart.consistent {loaded : Loaded} (h : IsStart path loaded s) :
    Consistent path loaded.records s := by
  refine ⟨stands_of_readFile h.houses h.reads, fun i journal hi => ?_, fun i journal hi => ?_,
    fun i hi => ?_⟩
  · rw [h.handle i] at hi
    exact nomatch hi
  · rw [h.handle i] at hi
    exact nomatch hi
  · rw [h.holder] at hi
    exact nomatch hi

/-- A directory with one file in it, and what the file holds. -/
def singleFile (content : Bytes) : Disk := ⟨[(["j"], .file 0 content)], [], 1⟩

theorem houses_singleFile (content : Bytes) : (singleFile content).Houses "j" ∧
    (singleFile content).at? true "j" = some (.file 0 content) :=
  Disk.IsSingle.houses (by decide +kernel) (by decide +kernel) (Disk.isRooted_nil _) rfl
    Nat.one_pos rfl

/-- The files when somebody has opened the one that is locked. -/
def lockedFile (content : Bytes) : Disk := (singleFile content).addFile ["j.lock"]

theorem makeLock_singleFile (content : Bytes) (records : List ExecutionRecord) :
    (⟨"j", records⟩ : Journal).makeLock (singleFile content) = (lockedFile content, none) := by
  have hopen : (singleFile content).openFile? true "j.lock" =
      some (.file 1, lockedFile content) := by
    have hlock : (singleFile content).LeadsTo false "j.lock" ["j.lock"] :=
      Disk.IsSingle.leadsTo (by decide +kernel) _
    have hvacant : (singleFile content).node? ["j.lock"] = none := rfl
    rw [Disk.openFile?, (hlock.followed fun target => by simp [hvacant]).resolve]
    rfl
  have hdirectory : Path.directory? "j.lock" = none := by decide +kernel
  have hlock : (⟨"j", records⟩ : Journal).lockPath = "j.lock" := rfl
  simp only [makeLock, hlock, hdirectory, hopen]

theorem leavesAlone_lockedFile (content : Bytes) :
    (singleFile content).LeavesAlone (lockedFile content) "j" := by
  have hl : (singleFile content).LeavesAlone
      ((⟨"j", []⟩ : Journal).makeLock (singleFile content)).1 "j" :=
    leavesAlone_makeLock (houses_singleFile content).1
  rwa [makeLock_singleFile] at hl

theorem exists_replace_lockedFile (former content : Bytes) :
    ∃ other, (lockedFile former).replace "j" content = (other, true) := by
  have hleft := leavesAlone_lockedFile former
  have hbeside : (lockedFile former).LeadsTo false "j.tmp" ["j.tmp"] :=
    Disk.IsSingle.leadsTo (by decide +kernel) _
  have hroom : (lockedFile former).at? false "j.tmp" ≠ some .directory := by
    have hnone : (lockedFile former).node? ["j.tmp"] = none := rfl
    rw [hbeside.at?, hnone]
    simp
  exact hleft.houses.exists_replace (hleft.file 0 former (houses_singleFile former).2) hbeside
    hroom content

/-- Nobody has opened the journal yet, which lists nothing. -/
def unopened : Sharing := ⟨singleFile [], fun _ => none, none⟩

def opened : Sharing := (unopened.setHandle 0 ⟨"j", []⟩).setHandle 1 ⟨"j", []⟩

end Sharing
end Countersign.Journal
