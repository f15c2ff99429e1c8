import Countersign.Proofs.Journal.Leftover
import Countersign.Proofs.Journal.Table

/-! Adding records while anything can break off. A process may fail or stop at every step of
writing, and what has been acknowledged is found again by whoever opens the journal. -/

namespace Countersign.Journal

open FileStep (besidePath)
open Sharing (IsCut)

/-- The files of a journal, and the handle of the process that holds its lock. -/
structure Writing where
  disk : Disk
  writer : Option Journal := none

namespace Writing

/-- How a call ends that has begun to write: the process gets the record or an error as its answer,
or stops before there is one. -/
inductive Ending where
  | acknowledged
  | failed
  | stopped
  deriving DecidableEq

def grownDocument (journal : Journal) (digest : String) (details : ExecutionDetails)
    (now : Moment) : Bytes :=
  ExecutionRecord.document (journal.records ++ [newRecord digest details now])

/-- One step at the journal. The record that a call was to add, and how the call has ended, stand
at the steps that have begun to write. -/
inductive Step (path : String) : Writing → Option (Ending × ExecutionRecord) → Writing → Prop where
  /-- Makes the file that is locked, and then waits, fails or stops. -/
  | approached {s : Writing} {journal : Journal} (hp : journal.path = path) :
      Step path s none { s with disk := (journal.makeLock s.disk).1 }
  | locked {s : Writing} {disk : Disk} {journal taken : Journal} {warnings : List JournalWarning}
      (hp : journal.path = path) (hfree : s.writer = none)
      (h : journal.lock s.disk = (disk, .ok (taken, warnings))) :
      Step path s none ⟨disk, some taken⟩
  /-- Lets the lock go, or stops without having begun to write. -/
  | released {s : Writing} : Step path s none { s with writer := none }
  | acknowledged {s : Writing} {disk : Disk} {journal after : Journal} {digest : String}
      {details : ExecutionDetails} {now : Moment} {r : ExecutionRecord}
      (hw : s.writer = some journal) (hn : now.IsValid)
      (h : journal.recordLocked s.disk digest details now = (disk, after, .ok r)) :
      Step path s (some (.acknowledged, r)) ⟨disk, some after⟩
  | refused {s : Writing} {disk : Disk} {journal after : Journal} {digest : String}
      {details : ExecutionDetails} {now : Moment} {result : Except JournalFault ExecutionRecord}
      (hw : s.writer = some journal) (hx : journal.isExecuted digest = true)
      (h : journal.recordLocked s.disk digest details now = (disk, after, result)) :
      Step path s none ⟨disk, some after⟩
  | failed {s : Writing} {disk : Disk} {journal after : Journal} {digest : String}
      {details : ExecutionDetails} {now : Moment} {fault : JournalFault}
      (hw : s.writer = some journal) (hx : journal.isExecuted digest = false)
      (h : journal.recordLocked s.disk digest details now = (disk, after, .error fault)) :
      Step path s (some (.failed, newRecord digest details now)) ⟨disk, some after⟩
  | brokenOff {s : Writing} {journal : Journal} {digest : String} {details : ExecutionDetails}
      {now : Moment} {steps : List FileStep} (hw : s.writer = some journal)
      (hx : journal.isExecuted digest = false)
      (h : IsCut (grownDocument journal digest details now) steps) :
      Step path s (some (.failed, newRecord digest details now))
        { s with disk := (FileStep.run path s.disk steps).1 }
  /-- The process stops while it writes, or has done all of it and not answered. -/
  | stopped {s : Writing} {journal : Journal} {digest : String} {details : ExecutionDetails}
      {now : Moment} {steps : List FileStep} (hw : s.writer = some journal) (hn : now.IsValid)
      (hx : journal.isExecuted digest = false)
      (h : IsCut (grownDocument journal digest details now) steps ∨
        steps = replacement (grownDocument journal digest details now)) :
      Step path s (some (.stopped, newRecord digest details now))
        ⟨(FileStep.run path s.disk steps).1, none⟩
  | leftover {s : Writing} {disk : Disk} {content : Bytes}
      (h : s.disk.write? (besidePath path) content = some disk) :
      Step path s none { s with disk }

/-- A run, with the calls that have begun to write in it. -/
inductive Run (path : String) : Writing → List (Ending × ExecutionRecord) → Writing → Prop where
  | start (s : Writing) : Run path s [] s
  | step {s between after : Writing} {past : List (Ending × ExecutionRecord)}
      {event : Option (Ending × ExecutionRecord)} (h : Run path s past between)
      (hs : Step path between event after) : Run path s (past ++ event.toList) after

def recordsOf (ending : Ending) (past : List (Ending × ExecutionRecord)) : List ExecutionRecord :=
  (past.filter (·.1 = ending)).map (·.2)

@[simp]
theorem recordsOf_append (ending : Ending) (past more : List (Ending × ExecutionRecord)) :
    recordsOf ending (past ++ more) = recordsOf ending past ++ recordsOf ending more := by
  simp [recordsOf]

@[simp]
theorem recordsOf_singleton (ending other : Ending) (r : ExecutionRecord) :
    recordsOf ending [(other, r)] = if other = ending then [r] else [] := by
  by_cases h : other = ending <;> simp [recordsOf, h]

/-- The path cannot become that of a directory any more. -/
structure Settled (disk : Disk) (path : String) : Prop where
  hasDirectory : disk.HasDirectory path
  notDirectory : disk.at? true path ≠ some .directory

variable {disk other : Disk} {path : String} {journal taken after : Journal}
  {records : List ExecutionRecord} {digest : String} {details : ExecutionDetails} {now : Moment}

theorem Settled.of_sameWays (h : Settled disk path) (hs : disk.SameWays other) :
    Settled other path :=
  ⟨h.hasDirectory.of_sameWays hs, mt hs.at?_directory_iff.mp h.notDirectory⟩

theorem settled_of_replaces {content : Bytes} (h : disk.Replaces other path content) :
    Settled other path := by
  obtain ⟨number, ha, _⟩ := h.file
  exact ⟨Disk.hasDirectory_of_at? ha, by simp [ha]⟩

theorem hasDirectory_of_makeLock (h : journal.makeLock disk = (other, none)) :
    other.HasDirectory journal.path := by
  unfold makeLock at h
  simp only at h
  split at h
  · exact absurd (Prod.mk.inj h).2 nofun
  · split at h
    · rename_i ho
      obtain rfl := (Prod.mk.inj h).1
      exact (Disk.hasDirectory_of_openFile? (by decide)
        (Option.isSome_of_eq_some ho)).of_sameWays (Disk.sameWays_openFile? ho)
    · exact absurd (Prod.mk.inj h).2 nofun

theorem settled_of_lock {warnings : List JournalWarning}
    (h : journal.lock disk = (other, .ok (taken, warnings))) : Settled other journal.path := by
  rcases lock_cases h with ⟨_, _, hno⟩ | ⟨hm, ho⟩
  · exact nomatch hno
  · refine ⟨hasDirectory_of_makeLock hm, fun hd => ?_⟩
    have hr := (open_eq_ok_iff.mp ho.symm).2
    rw [readFile_of_directory hd] at hr
    exact nomatch hr

theorem replace_of_recordLocked (hx : journal.isExecuted digest = false) {fault : JournalFault}
    (h : journal.recordLocked disk digest details now = (other, after, .error fault)) :
    after = journal ∧
      disk.replace journal.path (grownDocument journal digest details now) = (other, false) := by
  rcases recordLocked_cases h with ⟨hx', _⟩ | ⟨_, _, _, hno⟩ | ⟨_, hr, hafter, _⟩
  · rw [hx] at hx'
    exact nomatch hx'
  · exact nomatch hno
  · exact ⟨hafter, hr⟩

/-- The file holds these records. Whoever has the lock knows them all, and nothing is made in the
way of the file any more. -/
structure Sound (path : String) (records : List ExecutionRecord) (s : Writing) : Prop where
  stands : Stands s.disk path records
  mirrors : ∀ journal, s.writer = some journal → Mirrors journal path records
  settled : ∀ journal, s.writer = some journal → Settled s.disk path

variable {s : Writing}

theorem Sound.spare (h : Sound path records s) (hs : Spares s.disk disk path) :
    Sound path records { s with disk } :=
  ⟨h.stands.of_leavesAlone hs.leavesAlone, h.mirrors,
    fun journal hw => (h.settled journal hw).of_sameWays hs.sameWays⟩

theorem Sound.release (h : Sound path records s) : Sound path records { s with writer := none } :=
  ⟨h.stands, nofun, nofun⟩

theorem Sound.of_recordLocked (h : Sound path records s) (hw : s.writer = some journal)
    (hn : now.IsValid) {r : ExecutionRecord}
    (hr : journal.recordLocked s.disk digest details now = (disk, after, .ok r)) :
    r = newRecord digest details now ∧ Sound path (records ++ [r]) ⟨disk, some after⟩ ∧
      Settled disk path := by
  obtain ⟨hrec, hstands, hmirrors, hrep⟩ := h.stands.recordLocked (h.mirrors journal hw) hn hr
  refine ⟨hrec, ⟨hstands, fun other ho => ?_, fun _ _ => settled_of_replaces hrep⟩,
    settled_of_replaces hrep⟩
  rw [← Option.some.inj ho]
  exact hmirrors

/-- What a call can have added that has ended so. -/
def CanAdd : Ending × ExecutionRecord → List ExecutionRecord → Prop
  | (.acknowledged, r), added => added = [r]
  | (.failed, _), added => added = []
  | (.stopped, r), added => added = [] ∨ added = [r]

theorem Sound.step_none (h : Sound path records s) {next : Writing}
    (hs : Step path s none next) : Sound path records next ∧
      (Settled s.disk path → Settled next.disk path) := by
  have hh := h.stands.houses
  cases hs with
  | @approached journal hp =>
    subst hp
    have hspares : Settled s.disk journal.path →
        Spares s.disk (journal.makeLock s.disk).1 journal.path :=
      fun hset => spares_makeLock hh hset.hasDirectory
    exact ⟨⟨h.stands.of_leavesAlone (leavesAlone_makeLock hh), h.mirrors,
      fun other hw => (h.settled other hw).of_sameWays (hspares (h.settled other hw)).sameWays⟩,
      fun hset => hset.of_sameWays (hspares hset).sameWays⟩
  | @locked disk journal taken warnings hp hfree hl =>
    obtain ⟨hleft, hall⟩ := h.stands.lock hp hl
    have hset := settled_of_lock hl
    rw [hp] at hset
    refine ⟨⟨h.stands.of_leavesAlone hleft, fun other ho => ?_, fun _ _ => hset⟩, fun _ => hset⟩
    rw [← Option.some.inj ho]
    exact hall taken warnings rfl
  | released => exact ⟨h.release, id⟩
  | @refused disk journal after digest details now result hw hx hr =>
    obtain ⟨rfl, rfl⟩ : disk = s.disk ∧ after = journal := by
      rcases recordLocked_cases hr with ⟨_, hd, ha, _⟩ | ⟨hx', _⟩ | ⟨hx', _⟩
      · exact ⟨hd, ha⟩
      · exact absurd (hx.symm.trans hx') (by decide)
      · exact absurd (hx.symm.trans hx') (by decide)
    rw [← hw]
    exact ⟨h, id⟩
  | leftover hwrite =>
    have hspares := spares_write? hh hwrite
    exact ⟨h.spare hspares, fun hset => hset.of_sameWays hspares.sameWays⟩

/-- A call that begins to write adds its record as a whole or not at all, and it does so if it is
acknowledged. -/
theorem Sound.step_some (h : Sound path records s) {next : Writing}
    {event : Ending × ExecutionRecord} (hs : Step path s (some event) next) :
    ∃ added, CanAdd event added ∧ Sound path (records ++ added) next ∧
      Settled next.disk path := by
  have hh := h.stands.houses
  cases hs with
  | @acknowledged disk journal after digest details now r hw hn hr =>
    obtain ⟨_, hsound, hset⟩ := h.of_recordLocked hw hn hr
    exact ⟨[r], rfl, hsound, hset⟩
  | @failed disk journal after digest details now fault hw hx hr =>
    have hset := h.settled journal hw
    obtain ⟨rfl, hrep⟩ := replace_of_recordLocked hx hr
    rw [(h.mirrors after hw).path] at hrep
    have hspares := spares_replace hh hset.hasDirectory hrep
    rw [← hw]
    exact ⟨[], rfl, by simpa using h.spare hspares, hset.of_sameWays hspares.sameWays⟩
  | @brokenOff journal digest details now steps hw hx hcut =>
    have hset := h.settled journal hw
    have hspares := spares_run hh hset.hasDirectory hcut.not_mem
    exact ⟨[], rfl, by simpa using h.spare hspares, hset.of_sameWays hspares.sameWays⟩
  | @stopped journal digest details now steps hw hn hx hsteps =>
    have hset := h.settled journal hw
    -- with the steps all done the record is there, though nobody has been told
    rcases hsteps with hcut | rfl
    · have hspares := spares_run hh hset.hasDirectory hcut.not_mem
      exact ⟨[], .inl rfl, by simpa using (h.spare hspares).release,
        hset.of_sameWays hspares.sameWays⟩
    · obtain ⟨disk, done, hrep⟩ : ∃ disk done, s.disk.replace path
          (grownDocument journal digest details now) = (disk, done) := ⟨_, _, rfl⟩
      have hrun : (FileStep.run path s.disk
          (replacement (grownDocument journal digest details now))).1 = disk :=
        congrArg Prod.fst hrep
      rw [hrun]
      cases done with
      | true =>
        rw [← (h.mirrors journal hw).path] at hrep
        obtain ⟨_, hsound, hset'⟩ := h.of_recordLocked hw hn (recordLocked_of_replace hx hrep)
        exact ⟨_, .inr rfl, hsound.release, hset'⟩
      | false =>
        have hspares := spares_replace hh hset.hasDirectory hrep
        exact ⟨[], .inl rfl, by simpa using (h.spare hspares).release,
          hset.of_sameWays hspares.sameWays⟩

/-- What the calls of a run have left in the file: the records that have been acknowledged, and
some of those that have been in flight at a stop. -/
def HaveLeft (past : List (Ending × ExecutionRecord)) (persisted : List ExecutionRecord) : Prop :=
  ∃ flown : List ExecutionRecord, flown.Sublist (recordsOf .stopped past) ∧
    ∀ r, r ∈ persisted ↔ r ∈ recordsOf .acknowledged past ∨ r ∈ flown

theorem HaveLeft.append {past : List (Ending × ExecutionRecord)}
    {persisted added : List ExecutionRecord} (h : HaveLeft past persisted)
    {event : Ending × ExecutionRecord} (hadd : CanAdd event added) :
    HaveLeft (past ++ [event]) (persisted ++ added) := by
  obtain ⟨flown, hflown, hall⟩ := h
  obtain ⟨ending, r⟩ := event
  simp only [HaveLeft, recordsOf_append, recordsOf_singleton]
  cases ending with
  | acknowledged =>
    obtain rfl : added = [r] := hadd
    refine ⟨flown, by simpa using hflown, fun x => ?_⟩
    rw [List.mem_append, hall x, if_pos rfl, List.mem_append, or_right_comm]
  | failed =>
    obtain rfl : added = [] := hadd
    exact ⟨flown, by simpa using hflown, by simpa using hall⟩
  | stopped =>
    have hadded : added.Sublist [r] := by
      rcases hadd with rfl | rfl
      · exact List.nil_sublist [r]
      · exact List.Sublist.refl [r]
    refine ⟨flown ++ added, by simpa using hflown.append hadded, fun x => ?_⟩
    rw [List.mem_append, hall x, List.mem_append, or_assoc]
    simp

/-- Along a run the file keeps what it had, and gets what its calls leave. -/
theorem Sound.run (h : Sound path records s) {past : List (Ending × ExecutionRecord)}
    {later : Writing} (hr : Run path s past later) : ∃ persisted, HaveLeft past persisted ∧
      Sound path (records ++ persisted) later ∧ (past ≠ [] → Settled later.disk path) := by
  induction hr with
  | start => exact ⟨[], ⟨[], by simp, by simp [recordsOf]⟩, by simpa using h, by simp⟩
  | @step between after past event hr hs ih =>
    obtain ⟨persisted, hleft, hsound, hset⟩ := ih
    cases event with
    | none =>
      obtain ⟨hafter, hkeeps⟩ := hsound.step_none hs
      simp only [Option.toList_none, List.append_nil]
      exact ⟨persisted, hleft, hafter, fun hp => hkeeps (hset hp)⟩
    | some event =>
      obtain ⟨added, hadd, hafter, hsettled⟩ := hsound.step_some hs
      rw [List.append_assoc] at hafter
      exact ⟨persisted ++ added, hleft.append hadd, hafter, fun _ => hsettled⟩

/-- A call that nothing interrupts is a run, in which the record is acknowledged if the call says
so. -/
theorem exists_run_of_record (hp : journal.path = path) (hn : now.IsValid)
    {warnings : List JournalWarning} {result : Except JournalFault ExecutionRecord}
    (h : journal.record disk digest details now = (other, after, warnings, result)) :
    ∃ past, Run path ⟨disk, none⟩ past ⟨other, none⟩ ∧
      recordsOf .acknowledged past = result.toOption.toList ∧ recordsOf .stopped past = [] := by
  rcases record_cases h with ⟨_, fault, rfl, hl⟩ | ⟨between, taken, hl, hr⟩
  · have hfirst : (journal.makeLock disk).1 = other := by
      rcases lock_cases hl with ⟨_, hm, _⟩ | ⟨hm, _⟩
      · rw [hm]
      · rw [hm]
    refine ⟨[], ?_, rfl, rfl⟩
    rw [← hfirst]
    exact .step (.start _) (.approached hp)
  · have hlocked : Run path ⟨disk, none⟩ [] ⟨between, some taken⟩ :=
      .step (.start _) (.locked hp rfl hl)
    cases result with
    | ok r =>
      exact ⟨[(.acknowledged, r)], .step (.step hlocked (.acknowledged rfl hn hr)) .released,
        rfl, rfl⟩
    | error fault =>
      cases hx : taken.isExecuted digest with
      | true => exact ⟨[], .step (.step hlocked (.refused rfl hx hr)) .released, rfl, rfl⟩
      | false =>
        exact ⟨[(.failed, newRecord digest details now)],
          .step (.step hlocked (.failed rfl hx hr)) .released, rfl, rfl⟩

/-- Wherever calls break off, whoever opens the journal afterwards finds the records that were
there and all that have been acknowledged, and beyond them only some that have been in flight when
a process has stopped. Opening fails only if the path is a directory's, and then nobody has begun
to write. What has been left beside the file changes neither what is read nor any later call. -/
theorem run_loses_nothing (hh : disk.Houses path) {loaded : Loaded}
    (hread : readFile disk path = .ok loaded) {past : List (Ending × ExecutionRecord)}
    {s : Writing} (hrun : Run path ⟨disk, none⟩ past s) :
    (∃ flown : List ExecutionRecord, flown.Sublist (recordsOf .stopped past) ∧
      ∀ journal warnings, Journal.open s.disk path = .ok (journal, warnings) →
        (journal.records.map (·.digest)).Nodup ∧ ∀ r, r ∈ journal.records ↔
          r ∈ loaded.records ∨ r ∈ recordsOf .acknowledged past ∨ r ∈ flown) ∧
    (∀ fault, Journal.open s.disk path = .error fault →
      past = [] ∧ s.disk.at? true path = some .directory) ∧
    ∀ content littered, s.disk.write? (besidePath path) content = some littered →
      readFile littered path = readFile s.disk path ∧
      ∀ requests : List Request, (∀ request ∈ requests, request.journal.path = path) →
        (recordAll littered requests).2 = (recordAll s.disk requests).2 ∧
        held (recordAll littered requests).1 path = held (recordAll s.disk requests).1 path ∧
        readFile (recordAll littered requests).1 path =
          readFile (recordAll s.disk requests).1 path := by
  have hstart : Sound path loaded.records ⟨disk, none⟩ :=
    ⟨stands_of_readFile hh hread, nofun, nofun⟩
  obtain ⟨persisted, ⟨flown, hflown, hall⟩, hsound, hset⟩ := hstart.run hrun
  refine ⟨⟨flown, hflown, fun journal warnings ho => ⟨(areListable_of_open ho).distinct,
    fun r => ?_⟩⟩, fun fault ho => ?_, fun content littered hw => ?_⟩
  · rw [hsound.stands.mem_iff (open_eq_ok_iff.mp ho).2 r, List.mem_append, hall r]
  · by_cases hd : s.disk.at? true path = some .directory
    · refine ⟨by_contra fun hp => (hset hp).notDirectory hd, hd⟩
    · obtain ⟨now, hnow, _⟩ := hsound.stands.exists_readFile hd
      have hopen : Journal.open s.disk path = .ok (⟨path, now.records⟩, now.warnings) :=
        open_eq_ok_iff.mpr ⟨rfl, hnow⟩
      rw [hopen] at ho
      exact nomatch ho
  · have halike := alike_of_write? hsound.stands.houses hw
    refine ⟨halike.readFile_eq, fun requests hp => ?_⟩
    obtain ⟨disk', other', answers, hd, ho, hafter⟩ := halike.recordAll hp
    rw [hd, ho]
    exact ⟨rfl, hafter.held, hafter.readFile_eq⟩

/-- One record is acknowledged, and the process stops while it writes the next: the first is found
again. So is a journal beside whose file something has been left. -/
theorem interrupted_call_loses_nothing :
    (∃ past s journal warnings, Run "j" ⟨Sharing.singleFile [], none⟩ past s ∧
      recordsOf .stopped past = [newRecord "0xcd" {} Moment.epoch] ∧
      Journal.open s.disk "j" = .ok (journal, warnings) ∧
      newRecord "0xab" {} Moment.epoch ∈ journal.records) ∧
    ∃ littered, (Sharing.singleFile []).write? (besidePath "j") [0x7b] = some littered ∧
      readFile littered "j" = .ok {} := by
  obtain ⟨hh, ha⟩ := Sharing.houses_singleFile []
  have hread : readFile (Sharing.singleFile []) "j" = .ok {} := readFile_of_empty ha
  constructor
  · have hnew : (⟨"j", []⟩ : Journal).isExecuted "0xab" = false := rfl
    obtain ⟨disk, hreplaced⟩ := Sharing.exists_replace_lockedFile []
      (grownDocument ⟨"j", []⟩ "0xab" {} Moment.epoch)
    have hadded := recordLocked_of_replace hnew hreplaced
    have hsecond : (⟨"j", [newRecord "0xab" {} Moment.epoch]⟩ : Journal).isExecuted "0xcd" =
        false := by decide +kernel
    have hcut : IsCut (grownDocument ⟨"j", [newRecord "0xab" {} Moment.epoch]⟩ "0xcd" {}
        Moment.epoch) _ := ⟨_, 3, List.take_prefix 20 _, by decide, rfl⟩
    have hrun : Run "j" ⟨Sharing.singleFile [], none⟩ _ _ :=
      .step (.step (.step (.start _) (.locked rfl rfl lock_singleFile))
        (.acknowledged rfl Moment.isValid_epoch hadded))
        (.stopped rfl Moment.isValid_epoch hsecond (.inl hcut))
    obtain ⟨⟨flown, _, hall⟩, hopen, _⟩ := run_loses_nothing hh hread hrun
    cases ho : Journal.open _ "j" with
    | error fault => exact absurd (hopen fault ho).1 (by simp)
    | ok pair =>
      obtain ⟨journal, warnings⟩ := pair
      refine ⟨_, _, journal, warnings, hrun, rfl, ho, ?_⟩
      exact ((hall journal warnings ho).2 _).mpr (.inr (.inl (by simp [recordsOf])))
  · have hbeside : (Sharing.singleFile []).LeadsTo false (besidePath "j") [besidePath "j"] :=
      Disk.IsSingle.leadsTo (by decide +kernel) _
    have hnone : (Sharing.singleFile []).node? [besidePath "j"] = none := by decide
    obtain ⟨opened, opening, hopening⟩ :=
      hh.beside.exists_openFile? hbeside (by simp [hbeside.at?, hnone]) false
    have hw : (Sharing.singleFile []).write? (besidePath "j") [0x7b] =
        some (opening.append opened [0x7b]) := by
      rw [Disk.write?, hopening]
      rfl
    obtain ⟨_, _, hleft⟩ := run_loses_nothing hh hread (.start _)
    exact ⟨_, hw, (hleft [0x7b] _ hw).1.trans hread⟩

end Writing
end Countersign.Journal
