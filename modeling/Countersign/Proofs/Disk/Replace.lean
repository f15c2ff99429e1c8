import Countersign.Proofs.Disk.Housing

/-! The steps of replacing a file. All but the last leave the file alone, wherever the replacement
breaks off; the last one puts the new content in its place. -/

namespace Countersign

open FileStep (besidePath)

namespace Disk

variable {disk other : Disk} {path : String}

/-! ### Directories -/

theorem exists_of_makeDirectory {made : String} (h : disk.makeDirectory made = .ok other) :
    ∃ place, disk.node? place = none ∧ other = disk.set place .directory := by
  unfold makeDirectory at h
  split at h
  · rename_i place hr
    exact ⟨place, (resolve_eq_ok_iff.mp hr).2.symm, (Except.ok.inj h).symm⟩
  · exact nomatch h
  · exact nomatch h

/-- Directories have been made, and nothing else. -/
inductive Furnished (disk : Disk) : Disk → Prop where
  | nothing : Furnished disk disk
  | directory {between other : Disk} {made : String} (h : Furnished disk between)
      (hm : between.makeDirectory made = .ok other) : Furnished disk other

theorem furnished_makeDirectoriesFrom (disk : Disk) (fuel : Nat) (made : String) :
    disk.Furnished (disk.makeDirectoriesFrom fuel made).1 := by
  induction fuel generalizing made with
  | zero => exact .nothing
  | succ fuel ih =>
    unfold makeDirectoriesFrom
    split
    · exact .nothing
    · split
      · rename_i hm
        exact .directory .nothing hm
      · exact .nothing
      · split
        · exact .nothing
        · rename_i above _
          have hup := ih above
          split
          · rename_i heq
            rw [heq] at hup
            exact hup
          · rename_i heq
            rw [heq] at hup
            split
            · rename_i hm
              exact .directory hup hm
            · exact hup

theorem furnished_makeDirectories (disk : Disk) (made : String) :
    disk.Furnished (disk.makeDirectories made).1 :=
  disk.furnished_makeDirectoriesFrom (made.length + 1) made

theorem at?_makeDirectory_file {made : String} (hm : disk.makeDirectory made = .ok other)
    {follow : Bool} {number : Nat} {content : Bytes}
    (ha : disk.at? follow path = some (.file number content)) :
    other.at? follow path = some (.file number content) := by
  obtain ⟨place, hn, rfl⟩ := exists_of_makeDirectory hm
  obtain ⟨place', hl, hf⟩ := exists_of_at? ha
  have hne : place' ≠ place := by
    rintro rfl
    rw [hn] at hf
    exact nomatch hf
  exact (grows_set_directory hn).keepsWays.at? hl ((node?_set_of_ne disk hne _).trans hf) nofun

/-- A file that is there stays what it is while directories are made. -/
theorem Furnished.at?_file (h : disk.Furnished other) {follow : Bool} {number : Nat}
    {content : Bytes} (ha : disk.at? follow path = some (.file number content)) :
    other.at? follow path = some (.file number content) := by
  induction h with
  | nothing => exact ha
  | directory _ hm ih => exact at?_makeDirectory_file hm ih

theorem Houses.leavesAlone_makeDirectory (h : disk.Houses path) {made : String}
    (hm : disk.makeDirectory made = .ok other) : disk.LeavesAlone other path := by
  have hfile : ∀ number content, disk.at? true path = some (.file number content) →
      other.at? true path = some (.file number content) := fun _ _ => at?_makeDirectory_file hm
  obtain ⟨place, hn, rfl⟩ := exists_of_makeDirectory hm
  exact h.leavesAlone_of_grows (grows_set_directory hn) hfile

theorem Houses.leavesAlone_of_furnished (h : disk.Houses path) (hf : disk.Furnished other) :
    disk.LeavesAlone other path := by
  induction hf with
  | nothing => exact .refl h
  | directory _ hm ih => exact ih.trans (ih.houses.leavesAlone_makeDirectory hm)

/-! ### Files -/

/-- The tree with a new file, which is empty. -/
def addFile (disk : Disk) (place : Location) : Disk :=
  { disk.set place (.file disk.made []) with made := disk.made + 1 }

theorem node?_addFile_self (h : disk.node? place = none) :
    (disk.addFile place).node? place = some (.file disk.made []) :=
  node?_set_self disk (ne_nil_of_node? h) _

theorem node?_addFile_of_ne {place place' : Location} (h : place' ≠ place) :
    (disk.addFile place).node? place' = disk.node? place' :=
  node?_set_of_ne disk h _

theorem keepsWays_addFile {place : Location} (h : disk.node? place = none) :
    disk.KeepsWays (disk.addFile place) := by
  have hne : ∀ place' node, disk.node? place' = some node → place' ≠ place := by
    rintro place' node hn rfl
    rw [h] at hn
    exact nomatch hn
  refine ⟨rfl, fun place' hn => ?_, fun place' target hn => ?_⟩
  · rw [node?_addFile_of_ne (hne place' _ hn), hn]
  · rw [node?_addFile_of_ne (hne place' _ hn), hn]

theorem openFile?_cases {keep : Bool} {opened : Opened}
    (h : disk.openFile? keep path = some (opened, other)) :
    (∃ place, disk.LeadsTo true path place ∧ disk.node? place = none ∧
      opened = .file disk.made ∧ other = disk.addFile place) ∨
    (∃ number content, disk.find? path = some (.file number content) ∧ opened = .file number ∧
      other = if keep then disk else disk.changeFile number fun _ => []) ∨
    (disk.find? path = some .device ∧ opened = .device ∧ other = disk) := by
  unfold openFile? at h
  split at h
  · rename_i place hr
    obtain ⟨hl, hn⟩ := resolve_eq_ok_iff.mp hr
    cases h
    exact .inl ⟨place, hl, hn.symm, rfl, rfl⟩
  · rename_i place number content hr
    cases h
    exact .inr (.inl ⟨number, content, by rw [find?, hr], rfl, rfl⟩)
  · rename_i place hr
    cases h
    exact .inr (.inr ⟨by rw [find?, hr], rfl, rfl⟩)
  · cases h

theorem at?_addFile {place place' : Location} (h : disk.node? place = none)
    (hl : disk.LeadsTo false path place') : (disk.addFile place).at? false path =
      if place' = place then some (.file disk.made []) else disk.at? false path := by
  rw [(hl.of_keepsWays (keepsWays_addFile h) nofun).at?]
  split
  · rename_i heq
    rw [heq, node?_addFile_self h]
  · rename_i hne
    rw [node?_addFile_of_ne hne, hl.at?]

theorem of_at?_addFile {place place' : Location} (h : disk.node? place = none)
    (hl : disk.LeadsTo false path place') {number : Nat} {content : Bytes}
    (ha : (disk.addFile place).at? false path = some (.file number content)) :
    (number = disk.made ∧ place' = place) ∨
      disk.at? false path = some (.file number content) := by
  rw [at?_addFile h hl] at ha
  split at ha
  · rename_i heq
    cases ha
    exact .inl ⟨rfl, heq⟩
  · exact .inr ha

theorem at?_addFile_file {place : Location} (h : disk.node? place = none) {follow : Bool}
    {number : Nat} {content : Bytes} (ha : disk.at? follow path = some (.file number content)) :
    (disk.addFile place).at? follow path = some (.file number content) := by
  obtain ⟨place', hl, hf⟩ := exists_of_at? ha
  have hne : place' ≠ place := by
    rintro rfl
    rw [h] at hf
    exact nomatch hf
  exact (keepsWays_addFile h).at? hl ((node?_addFile_of_ne hne).trans hf) nofun

/-- A new file is found where a path has led to nothing, be it by way of a link. -/
theorem LeadsTo.at?_addFile {place : Location} (hl : disk.LeadsTo true path place)
    (h : disk.node? place = none) :
    (disk.addFile place).at? true path = some (.file disk.made []) := by
  have hself := node?_addFile_self h
  rw [(hl.of_keepsWays (keepsWays_addFile h) fun _ target => by simp [hself]).at?, hself]

theorem IsVacant.addFile_of_leadsTo {place place' : Location} (hv : disk.IsVacant path)
    (h : disk.node? place = none) (hl : disk.LeadsTo false path place') :
    (disk.addFile place).IsVacant path ∨
      (place' = place ∧
        ∀ follow, (disk.addFile place).at? follow path = some (.file disk.made [])) := by
  have ha := at?_addFile h hl
  split at ha
  · rename_i heq
    exact .inr ⟨heq, fun follow => by rw [at?_of_not_link (by simp [ha]) follow, ha]⟩
  · have hl' := hl.of_keepsWays (keepsWays_addFile h) nofun
    left
    apply isVacant_of_leadsTo hl'
    rw [← hl'.at?, ha]
    exact hv.at? false

theorem IsPlain.addFile {place place' : Location} {follow : Bool} (hx : disk.IsPlain follow path)
    (h : disk.node? place = none) (hl : disk.LeadsTo false path place') :
    (disk.addFile place).IsPlain follow path := by
  rcases hx with hv | ⟨number, content, hf, hlt⟩
  · rcases hv.addFile_of_leadsTo h hl with hv' | ⟨_, ha⟩
    · exact .inl hv'
    · exact .inr ⟨disk.made, [], ha follow, Nat.lt_succ_self disk.made⟩
  · exact .inr ⟨number, content, at?_addFile_file h hf, Nat.lt_succ_of_lt hlt⟩

theorem isVacant_empty (disk : Disk) : disk.IsVacant "" := by
  intro grown _ node ha
  obtain ⟨place, hl, _⟩ := exists_of_at? ha
  exact absurd rfl hl.notEmpty

theorem besidePath_ne_empty (path : String) : besidePath path ≠ "" := by
  intro h
  have hl := congrArg String.length h
  rw [besidePath, String.length_append] at hl
  exact absurd hl (by simp [show ".tmp".length = 4 by decide])

theorem slash_not_mem_tmp : '/' ∉ ".tmp".toList := by decide

/-- Where nothing stands at the path, a new file stands there or beside it, and not both. -/
theorem IsVacant.addFile {place beside : Location} (hv : disk.IsVacant path)
    (h : disk.node? place = none) (hb : disk.LeadsTo false (besidePath path) beside) :
    (disk.addFile place).IsVacant path ∨
      (beside ≠ place ∧ (disk.addFile place).at? true path = some (.file disk.made [])) := by
  by_cases hempty : path = ""
  · exact .inl (hempty ▸ isVacant_empty _)
  · obtain ⟨here, hh, hne⟩ := hb.exists_shorter slash_not_mem_tmp (by decide) hempty
    rcases hv.addFile_of_leadsTo h hh with hv' | ⟨rfl, ha⟩
    · exact .inl hv'
    · exact .inr ⟨hne.symm, ha true⟩

/-- A new file, wherever it is made, leaves a file alone whose directory is there. -/
theorem Houses.leavesAlone_addFile (h : disk.Houses path) {place beside : Location}
    (hn : disk.node? place = none) (hb : disk.LeadsTo false (besidePath path) beside) :
    disk.LeavesAlone (disk.addFile place) path := by
  have hk := keepsWays_addFile hn
  have hformer : ∀ number content,
      (disk.addFile place).at? false (besidePath path) = some (.file number content) →
        disk.made ≤ number ∨
          ∃ former, disk.at? false (besidePath path) = some (.file number former) := by
    intro number content ha
    rcases of_at?_addFile hn hb ha with ⟨rfl, _⟩ | ho
    · exact .inl (Nat.le_refl _)
    · exact .inr ⟨content, ho⟩
  rcases h.file with hv | ⟨own, content, hown, hlt⟩
  · -- without a file yet, the new one may be the file itself: then it is not the one beside it
    rcases hv.addFile hn hb with hv' | ⟨hne, ha⟩
    · refine ⟨⟨.inl hv', h.beside.addFile hn hb, fun number content other ha => ?_,
        hk.isRooted h.rooted⟩, Nat.le_succ _, fun number content ha => ?_, hk.at?_directory,
        fun _ node ha => ?_, hformer⟩
      · rcases hv'.at? true with hnode | hnode <;> simp [hnode] at ha
      · rcases hv.at? true with hnode | hnode <;> simp [hnode] at ha
      · rcases hv'.at? true with hnode | hnode
        · rw [hnode] at ha
          exact nomatch ha
        · rw [hnode] at ha
          exact .inl (Option.some.inj ha).symm
    · refine ⟨⟨.inr ⟨_, _, ha, Nat.lt_succ_self _⟩, h.beside.addFile hn hb,
        fun number content other ho ht => ?_, hk.isRooted h.rooted⟩, Nat.le_succ _,
        fun number content hf => ?_, hk.at?_directory, fun _ node ho => ?_, hformer⟩
      · rw [ha] at ho
        cases ho
        rcases of_at?_addFile hn hb ht with ⟨_, heq⟩ | ht
        · exact hne heq
        · exact Nat.lt_irrefl _ (h.beside.of_at?_file ht)
      · rcases hv.at? true with hnode | hnode <;> simp [hnode] at hf
      · rw [ha] at ho
        exact .inr ⟨disk.made, (Option.some.inj ho).symm, Nat.le_refl _⟩
  · have hstill := at?_addFile_file hn hown
    refine ⟨⟨.inr ⟨own, content, hstill, Nat.lt_succ_of_lt hlt⟩, h.beside.addFile hn hb,
      fun number content' other ha ht => ?_, hk.isRooted h.rooted⟩, Nat.le_succ _,
      fun number content' ha => at?_addFile_file hn ha, hk.at?_directory, fun hnone => ?_, hformer⟩
    · rw [hstill] at ha
      cases ha
      rcases of_at?_addFile hn hb ht with ⟨rfl, _⟩ | ht
      · exact Nat.lt_irrefl _ hlt
      · exact h.apart _ _ _ hown ht
    · rw [hown] at hnone
      exact nomatch hnone

theorem at?_changeFile {follow : Bool} {number : Nat} {content : Bytes} (change : Bytes → Bytes)
    (ha : disk.at? follow path = some (.file number content)) :
    (disk.changeFile number change).at? follow path = some (.file number (change content)) := by
  obtain ⟨place, hl, hf⟩ := exists_of_at? ha
  have hnode : (disk.changeFile number change).node? place =
      some (.file number (change content)) := by
    rw [node?_changeFile, hf]
    simp [changed]
  exact (grows_changeFile disk number change).keepsWays.at? hl hnode nofun

theorem at?_changeFile_of_ne {follow : Bool} {number other : Nat} {content : Bytes}
    (change : Bytes → Bytes) (hne : other ≠ number)
    (ha : disk.at? follow path = some (.file other content)) :
    (disk.changeFile number change).at? follow path = some (.file other content) := by
  obtain ⟨place, hl, hf⟩ := exists_of_at? ha
  have hnode : (disk.changeFile number change).node? place = some (.file other content) := by
    rw [node?_changeFile, hf]
    simp [changed, hne]
  exact (grows_changeFile disk number change).keepsWays.at? hl hnode nofun

theorem Houses.leavesAlone_changeFile (h : disk.Houses path) {number : Nat} {change : Bytes → Bytes}
    (hne : ∀ content, disk.at? true path ≠ some (.file number content)) :
    disk.LeavesAlone (disk.changeFile number change) path := by
  apply h.leavesAlone_of_grows (grows_changeFile disk number change)
  intro other content ha
  have hother : other ≠ number := by
    rintro rfl
    exact hne content ha
  exact at?_changeFile_of_ne change hother ha

theorem Houses.leavesAlone_openLock (h : disk.Houses path) {opened : Opened}
    (ho : disk.openFile? true (path ++ ".lock") = some (opened, other)) :
    disk.LeavesAlone other path := by
  rcases openFile?_cases ho with ⟨place, hl, hn, _, rfl⟩ | ⟨_, _, _, _, rfl⟩ | ⟨_, _, rfl⟩
  · have hend : IsEnding ".tmp" ".lock" := ⟨by decide, by decide, by decide⟩
    obtain ⟨beside, hb⟩ := hl.exists_sibling (by decide) hend (besidePath_ne_empty path)
    exact h.leavesAlone_addFile hn hb
  · exact .refl h
  · exact .refl h

/-- The file beside it is emptied or made, and is what has been opened. -/
theorem Houses.openBeside (h : disk.Houses path) {opened : Opened}
    (ho : disk.openFile? false (besidePath path) = some (opened, other)) :
    disk.LeavesAlone other path ∧ ∃ number, opened = .file number ∧
      other.at? false (besidePath path) = some (.file number []) := by
  have hfind : disk.find? (besidePath path) = disk.at? false (besidePath path) :=
    at?_of_not_link h.beside.ne_link true
  rcases openFile?_cases ho with ⟨place, hl, hn, rfl, rfl⟩ | ⟨number, content, hf, rfl, rfl⟩ |
      ⟨hf, _, _⟩
  · have hb := hl.unfollowed h.beside.ne_link
    refine ⟨h.leavesAlone_addFile hn hb, disk.made, rfl, ?_⟩
    rw [at?_addFile hn hb, if_pos rfl]
  · rw [hfind] at hf
    exact ⟨h.leavesAlone_changeFile fun content' ha => h.apart number content' content ha hf,
      number, rfl, at?_changeFile (fun _ => []) hf⟩
  · rw [hfind] at hf
    rcases h.beside with hv | ⟨number, content, ha, _⟩
    · rcases hv.at? false with ha | ha <;> simp [ha] at hf
    · simp [ha] at hf

theorem Houses.writeBeside (h : disk.Houses path) {content : Bytes}
    (hw : disk.write? (besidePath path) content = some other) :
    disk.LeavesAlone other path ∧
      ∃ number, other.at? false (besidePath path) = some (.file number content) := by
  unfold write? at hw
  obtain ⟨⟨opened, opening⟩, ho, rfl⟩ := Option.map_eq_some_iff.mp hw
  obtain ⟨hleft, number, rfl, ha⟩ := h.openBeside ho
  exact ⟨hleft.trans (hleft.houses.leavesAlone_changeFile fun content' hc =>
    hleft.houses.apart number content' [] hc ha), number, at?_changeFile (· ++ content) ha⟩

/-- The tree in which a node has been moved from one place to another. -/
def moved (disk : Disk) (source into : Location) (node : Node) : Disk :=
  (disk.erase source).set into node

/-- After the file beside it has been moved in its place, both paths lead where they led before:
neither goes on from a link that has stood there. -/
theorem Houses.leadsTo_moved (h : disk.Houses path) {source into : Location}
    (hs : disk.LeadsTo false (besidePath path) source) {number : Nat} {content : Bytes}
    (hsource : disk.node? source = some (.file number content))
    (ht : disk.LeadsTo false path into) (hinto : disk.node? into ≠ some .directory)
    (hne : into ≠ source) :
    (disk.moved source into (.file number content)).LeadsTo false path into ∧
      (disk.moved source into (.file number content)).LeadsTo false (besidePath path) source ∧
      (disk.moved source into (.file number content)).IsRooted disk.working := by
  have hother : ∀ place node, disk.node? place = some node → node ≠ .file number content →
      place ≠ into → (disk.moved source into (.file number content)).node? place = some node := by
    intro place node hn hnode hpi
    have hps : place ≠ source := by
      rintro rfl
      rw [hsource] at hn
      exact hnode (Option.some.inj hn).symm
    rw [moved, node?_set_of_ne _ hpi, node?_erase_of_ne disk hps, hn]
  have hdirectory : ∀ place, disk.node? place = some .directory →
      (disk.moved source into (.file number content)).node? place = some .directory := by
    intro place hd
    refine hother place _ hd nofun ?_
    rintro rfl
    exact hinto hd
  have hrooted : (disk.moved source into (.file number content)).IsRooted disk.working :=
    fun above ha => hdirectory above (h.rooted above ha)
  -- only a link that stood in the place can have been on a way, and it led to a file
  by_cases hlink : ∃ target, disk.node? into = some (.link target)
  · obtain ⟨target, hlink⟩ := hlink
    rcases h.file with hv | ⟨_, _, hfile, _⟩
    · rcases hv.at? false with ha | ha <;> simp [ht.at?, hlink] at ha
    · obtain ⟨place, hp, hf⟩ := exists_of_at? hfile
      have hk : disk.KeepsOtherWays (disk.moved source into (.file number content)) into target :=
        ⟨rfl, hdirectory, fun place _ hpi hl => hother place _ hl nofun hpi, hlink,
          hp.blocked h.rooted hf ht hlink⟩
      exact ⟨ht.of_keepsOtherWays hk, hs.of_keepsOtherWays hk, hrooted⟩
  · have hk : disk.KeepsWays (disk.moved source into (.file number content)) := by
      refine ⟨rfl, hdirectory, fun place target hl => hother place _ hl nofun ?_⟩
      rintro rfl
      exact hlink ⟨target, hl⟩
    exact ⟨ht.of_keepsWays hk nofun, hs.of_keepsWays hk nofun, hrooted⟩

/-- The renamed file stands in the place of the other, and nothing stands beside it. -/
theorem Houses.renameBeside (h : disk.Houses path) {number : Nat} {content : Bytes}
    (hb : disk.at? false (besidePath path) = some (.file number content))
    (hr : disk.rename? (besidePath path) path = some other) :
    disk.at? true path ≠ some .directory ∧ other.at? true path = some (.file number content) ∧
      other.at? false (besidePath path) = none ∧ other.made = disk.made ∧ other.Houses path := by
  obtain ⟨source, hs, hsource⟩ := exists_of_at? hb
  unfold rename? at hr
  rw [hs.resolve, hsource] at hr
  split at hr
  · rename_i heq
    cases heq
  · exact nomatch hr
  · rename_i _ node into found _ hover hfirst hsecond
    cases hfirst
    obtain ⟨ht, rfl⟩ := resolve_eq_ok_iff.mp hsecond
    have hne : into ≠ source := ht.ne_longer slash_not_mem_tmp (by decide) hs
    rw [if_neg (Ne.symm hne)] at hr
    obtain rfl := Option.some.inj hr
    obtain ⟨hthere, hbeside, hrooted⟩ := h.leadsTo_moved hs hsource ht hover hne
    have hself : (disk.moved source into (.file number content)).node? into =
        some (.file number content) := by
      refine node?_set_self _ ?_ _
      rintro rfl
      exact hover (node?_nil disk)
    have hgone : (disk.moved source into (.file number content)).node? source = none := by
      rw [moved, node?_set_of_ne _ hne.symm, node?_erase_self]
      rintro rfl
      rw [node?_nil] at hsource
      cases hsource
    have hfile : (disk.moved source into (.file number content)).at? true path =
        some (.file number content) := by
      rw [at?_of_not_link (by simp [hthere.at?, hself]), hthere.at?, hself]
    have hdirectory : disk.at? true path ≠ some .directory := by
      intro hd
      rcases h.file with hv | ⟨_, _, hfile, _⟩
      · rcases hv.at? false with ha | ha
        · rw [at?_of_not_link (by simp [ha]), ha] at hd
          exact nomatch hd
        · rw [ht.at?] at ha
          exact hover ha
      · rw [hd] at hfile
        cases hfile
    refine ⟨hdirectory, hfile, by rw [← hgone]; exact hbeside.at?, rfl,
      .inr ⟨number, content, hfile, h.beside.of_at?_file hb⟩,
      .inl (isVacant_of_leadsTo hbeside (.inl hgone)), fun _ _ _ _ hb' => ?_, hrooted⟩
    have hnone := hbeside.at?
    rw [hgone] at hnone
    have hb'' : (disk.moved source into (.file number content)).at? false (besidePath path) =
        some (.file _ _) := hb'
    rw [hnone] at hb''
    exact nomatch hb''
  · exact nomatch hr

end Disk

namespace FileStep

variable {disk : Disk} {path : String}

theorem apply_leavesAlone (h : disk.Houses path) {step : FileStep} (hs : step ≠ rename) :
    disk.LeavesAlone (step.apply path disk).1 path := by
  cases step with
  | parents =>
    simp only [apply]
    split
    · exact .refl h
    · exact h.leavesAlone_of_furnished (disk.furnished_makeDirectories _)
  | create =>
    simp only [apply]
    split
    · rename_i ho
      exact (h.openBeside ho).1
    · exact .refl h
  | write content =>
    simp only [apply]
    split
    · rename_i hw
      exact (h.writeBeside hw).1
    · exact .refl h
  | sync => exact .refl h
  | rename => exact absurd rfl hs

/-- What every step preserves is preserved by as many of them as are carried out. -/
theorem run_preserves {motive : Disk → Prop} {steps : List FileStep} (h : motive disk)
    (hs : ∀ step ∈ steps, ∀ between, motive between → motive (step.apply path between).1) :
    motive (run path disk steps).1 := by
  induction steps generalizing disk with
  | nil => exact h
  | cons step rest ih =>
    have hstep : motive (step.apply path disk).1 := hs step List.mem_cons_self disk h
    unfold run
    split
    · rename_i heq
      rw [heq] at hstep
      exact ih hstep fun later hm => hs later (List.mem_cons_of_mem _ hm)
    · rename_i heq
      rw [heq] at hstep
      exact hstep

/-- Until the new file is put in its place, a replacement leaves the old one alone. -/
theorem run_leavesAlone (h : disk.Houses path) {steps : List FileStep} (hs : rename ∉ steps) :
    disk.LeavesAlone (run path disk steps).1 path :=
  run_preserves (motive := (disk.LeavesAlone · path)) (.refl h) fun _ hm _ hleft =>
    hleft.trans (apply_leavesAlone hleft.houses fun heq => hs (heq ▸ hm))

theorem run_append (path : String) (disk : Disk) (first second : List FileStep) :
    run path disk (first ++ second) =
      match run path disk first with
      | (between, true) => run path between second
      | (between, false) => (between, false) := by
  induction first generalizing disk with
  | nil => rfl
  | cons step rest ih =>
    simp only [List.cons_append, run]
    split
    · rename_i between _
      exact ih between
    · rfl

end FileStep

namespace Disk

variable {disk other : Disk} {path : String} {content : Bytes}

/-- A replacement that fails has done no more than the steps before the last. -/
theorem run_of_replace (hr : disk.replace path content = (other, false)) :
    other = (FileStep.run path disk [.parents, .create, .write content, .sync]).1 := by
  have hsplit : replacement content =
      [.parents, .create, .write content, .sync] ++ [FileStep.rename] := rfl
  rw [replace, hsplit, FileStep.run_append] at hr
  split at hr
  · rename_i between heq
    rw [heq]
    simp only [FileStep.run, FileStep.apply] at hr
    cases hn : between.rename? (besidePath path) path with
    | none =>
      rw [hn] at hr
      exact (Prod.mk.inj hr).1.symm
    | some renamed =>
      rw [hn] at hr
      exact absurd (Prod.mk.inj hr).2 (by simp)
  · rename_i heq
    rw [heq]
    exact (Prod.mk.inj hr).1.symm

theorem Houses.leavesAlone_replace (h : disk.Houses path)
    (hr : disk.replace path content = (other, false)) : disk.LeavesAlone other path := by
  rw [run_of_replace hr]
  exact FileStep.run_leavesAlone h (by simp)

/-- A change that puts a file with that content in the place of what the path led to. -/
structure Replaces (disk other : Disk) (path : String) (content : Bytes) : Prop where
  houses : other.Houses path
  made : disk.made ≤ other.made
  notDirectory : disk.at? true path ≠ some .directory
  beside : other.at? false (besidePath path) = none
  file : ∃ number, other.at? true path = some (.file number content) ∧
    (disk.made ≤ number ∨ ∃ former, disk.at? false (besidePath path) = some (.file number former))

theorem LeavesAlone.replaces {between : Disk} (h : disk.LeavesAlone between path)
    (hr : between.Replaces other path content) : disk.Replaces other path content := by
  obtain ⟨number, ha, hn⟩ := hr.file
  refine ⟨hr.houses, Nat.le_trans h.made hr.made, fun hd => hr.notDirectory (h.directory hd),
    hr.beside, number, ha, ?_⟩
  rcases hn with hle | ⟨former, hf⟩
  · exact .inl (Nat.le_trans h.made hle)
  · exact h.beside number former hf

/-- A replacement that succeeds puts the new content in the place of the old one. -/
theorem Houses.replaces (h : disk.Houses path)
    (hr : disk.replace path content = (other, true)) : disk.Replaces other path content := by
  have hsplit : replacement content =
      [.parents, .create] ++ [.write content, .sync, FileStep.rename] := rfl
  have hbefore : disk.LeavesAlone (FileStep.run path disk [.parents, .create]).1 path :=
    FileStep.run_leavesAlone h (by simp)
  rw [replace, hsplit, FileStep.run_append] at hr
  split at hr
  · rename_i between heq
    rw [heq] at hbefore
    simp only [FileStep.run, FileStep.apply] at hr
    cases hw : between.write? (besidePath path) content with
    | none =>
      rw [hw] at hr
      exact absurd (Prod.mk.inj hr).2 (by simp)
    | some written =>
      rw [hw] at hr
      obtain ⟨hleft, number, ha⟩ := hbefore.houses.writeBeside hw
      have hall := hbefore.trans hleft
      cases hn : written.rename? (besidePath path) path with
      | none =>
        simp only [hn] at hr
        exact absurd (Prod.mk.inj hr).2 (by simp)
      | some renamed =>
        simp only [hn] at hr
        obtain rfl := (Prod.mk.inj hr).1
        obtain ⟨hdir, hthere, hgone, hmade, hhouses⟩ := hall.houses.renameBeside ha hn
        exact ⟨hhouses, hmade ▸ hall.made, fun hd => hdir (hall.directory hd), hgone, number,
          hthere, hall.beside number content ha⟩
  · exact absurd (Prod.mk.inj hr).2 (by simp)

end Disk
end Countersign
