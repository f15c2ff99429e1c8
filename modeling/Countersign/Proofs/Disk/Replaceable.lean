import Countersign.Proofs.Disk.Directory

/-! Whether a file can be replaced. That is told by where paths lead, and not by what its
neighbours hold; so two trees of the same ways go on alike. -/

namespace Countersign.Disk

open FileStep (besidePath)

variable {disk other : Disk} {path : String}

theorem HasDirectory.sameWays_apply (hd : disk.HasDirectory path)
    (hw : disk.IsRooted disk.working) {step : FileStep} (hs : step ≠ .rename) :
    disk.SameWays (step.apply path disk).1 := by
  cases step with
  | parents =>
    rw [hd.parents hw]
    exact .refl disk
  | create =>
    simp only [FileStep.apply]
    split
    · rename_i ho
      exact sameWays_openFile? ho
    · exact .refl disk
  | write content =>
    simp only [FileStep.apply]
    split
    · rename_i hwrite
      exact sameWays_write? hwrite
    · exact .refl disk
  | sync => exact .refl disk
  | rename => exact absurd rfl hs

/-- Until the new file is put in its place, a replacement does not change where paths lead. -/
theorem HasDirectory.sameWays_run (hd : disk.HasDirectory path) (hw : disk.IsRooted disk.working)
    {steps : List FileStep} (hs : .rename ∉ steps) :
    disk.SameWays (FileStep.run path disk steps).1 :=
  FileStep.run_preserves (motive := disk.SameWays) (.refl disk) fun _ hm _ hsame =>
    hsame.trans ((hd.of_sameWays hsame).sameWays_apply (hsame.forth.isRooted hw)
      fun heq => hs (heq ▸ hm))

theorem IsPlain.exists_openFile? (h : disk.IsPlain false path) {place : Location}
    (hl : disk.LeadsTo false path place) (hd : disk.at? false path ≠ some .directory)
    (keep : Bool) : ∃ opened other, disk.openFile? keep path = some (opened, other) := by
  have hfollowed := hl.followed fun target ht => h.ne_link target (by rw [hl.at?, ht])
  rw [openFile?, hfollowed.resolve, ← hl.at?]
  rcases h with hv | ⟨number, content, ha, _⟩
  · rcases hv.at? false with ha | ha
    · rw [ha]
      exact ⟨_, _, rfl⟩
    · exact absurd ha hd
  · rw [ha]
    exact ⟨_, _, rfl⟩

theorem exists_rename? {source target : String} {place : Location}
    (hs : disk.LeadsTo false source place) {number : Nat} {content : Bytes}
    (hf : disk.node? place = some (.file number content)) {into : Location}
    (ht : disk.LeadsTo false target into) (hd : disk.node? into ≠ some .directory) :
    ∃ other, disk.rename? source target = some other := by
  rw [rename?, hs.resolve, hf, ht.resolve]
  cases hn : disk.node? into with
  | none => by_cases hne : place = into <;> simp [hne]
  | some node =>
    cases node with
    | directory => exact absurd hn hd
    | file _ _ => by_cases hne : place = into <;> simp [hne]
    | link _ => by_cases hne : place = into <;> simp [hne]
    | device => by_cases hne : place = into <;> simp [hne]

/-- Nothing is in the way of replacing the file. -/
structure IsReplaceable (disk : Disk) (path : String) : Prop where
  beside : (disk.openFile? false (besidePath path)).isSome = true
  notEmpty : path ≠ ""
  notDirectory : disk.at? true path ≠ some .directory

theorem IsReplaceable.of_sameWays (h : disk.IsReplaceable path) (hs : disk.SameWays other) :
    other.IsReplaceable path :=
  ⟨(hs.openFile?_isSome false _).trans h.beside, h.notEmpty,
    fun hd => h.notDirectory (hs.at?_directory_iff.mp hd)⟩

theorem Houses.run_prepared (h : disk.Houses path) (hd : disk.HasDirectory path)
    (content : Bytes) :
    (FileStep.run path disk [.parents, .create, .write content, .sync]).2 =
        (disk.openFile? false (besidePath path)).isSome ∧
      ((disk.openFile? false (besidePath path)).isSome = true → ∃ number,
        (FileStep.run path disk [.parents, .create, .write content, .sync]).1.at? false
          (besidePath path) = some (.file number content)) := by
  have hparents : FileStep.run path disk [.parents, .create, .write content, .sync] =
      FileStep.run path disk [.create, .write content, .sync] := by
    rw [FileStep.run, hd.parents h.rooted]
  rw [hparents]
  cases ho : disk.openFile? false (besidePath path) with
  | none => simp [FileStep.run, FileStep.apply, ho]
  | some pair =>
    obtain ⟨opened, made⟩ := pair
    obtain ⟨hleft, _, _, hempty⟩ := h.openBeside ho
    obtain ⟨place, hb, _⟩ := exists_of_at? hempty
    obtain ⟨opened', opening, hopening⟩ :=
      hleft.houses.beside.exists_openFile? hb (by simp [hempty]) false
    have hw : made.write? (besidePath path) content = some (opening.append opened' content) := by
      rw [write?, hopening]
      rfl
    obtain ⟨_, number, hwritten⟩ := hleft.houses.writeBeside hw
    have hrun : FileStep.run path disk [.create, .write content, .sync] =
        (opening.append opened' content, true) := by
      simp [FileStep.run, FileStep.apply, ho, hw]
    rw [hrun]
    exact ⟨rfl, fun _ => ⟨number, hwritten⟩⟩

theorem Houses.rename?_isSome_iff (h : disk.Houses path) {number : Nat} {content : Bytes}
    (hb : disk.at? false (besidePath path) = some (.file number content)) :
    (disk.rename? (besidePath path) path).isSome = true ↔
      path ≠ "" ∧ disk.at? true path ≠ some .directory := by
  obtain ⟨source, hs, hsource⟩ := exists_of_at? hb
  constructor
  · intro hr
    obtain ⟨other, hother⟩ := Option.isSome_iff_exists.mp hr
    obtain ⟨_, _, _, _, ht, _, _, _, _⟩ := rename?_cases hother
    exact ⟨ht.notEmpty, (h.renameBeside hb hother).1⟩
  · rintro ⟨hempty, hdirectory⟩
    obtain ⟨into, hi, _⟩ := hs.exists_shorter slash_not_mem_tmp (by decide) hempty
    have hover : disk.node? into ≠ some .directory := by
      intro hn
      rw [at?_of_not_link (by simp [hi.at?, hn]), hi.at?, hn] at hdirectory
      exact hdirectory rfl
    obtain ⟨other, hother⟩ := exists_rename? hs hsource hi hover
    rw [hother, Option.isSome_some]

/-- Whether the file is replaced can be told beforehand, and all that can go wrong with it leaves
the ways as they were. -/
theorem Houses.replace_cases (h : disk.Houses path) (hd : disk.HasDirectory path)
    (content : Bytes) : ∃ between, disk.SameWays between ∧
      ((disk.IsReplaceable path ∧ ∃ other, between.rename? (besidePath path) path = some other ∧
          disk.replace path content = (other, true)) ∨
        (¬ disk.IsReplaceable path ∧ disk.replace path content = (between, false))) := by
  have hsplit : replacement content =
      [.parents, .create, .write content, .sync] ++ [FileStep.rename] := rfl
  have hsame : disk.SameWays
      (FileStep.run path disk [.parents, .create, .write content, .sync]).1 :=
    hd.sameWays_run h.rooted (by simp)
  have hleft : disk.LeavesAlone
      (FileStep.run path disk [.parents, .create, .write content, .sync]).1 path :=
    FileStep.run_leavesAlone h (by simp)
  obtain ⟨hdone, hwritten⟩ := h.run_prepared hd content
  rw [replace, hsplit, FileStep.run_append]
  generalize FileStep.run path disk [.parents, .create, .write content, .sync] = prepared at *
  obtain ⟨between, done⟩ := prepared
  simp only at hsame hleft hdone hwritten
  subst hdone
  refine ⟨between, hsame, ?_⟩
  cases ho : (disk.openFile? false (besidePath path)).isSome with
  | false =>
    exact .inr ⟨fun hr => Bool.false_ne_true (ho.symm.trans hr.beside), rfl⟩
  | true =>
    obtain ⟨number, hb⟩ := hwritten ho
    have hiff := hleft.houses.rename?_isSome_iff hb
    rw [Ne, Ne, hsame.at?_directory_iff] at hiff
    simp only [FileStep.run, FileStep.apply]
    cases hr : between.rename? (besidePath path) path with
    | none =>
      rw [hr] at hiff
      refine .inr ⟨fun hrep => ?_, rfl⟩
      exact absurd (hiff.mpr ⟨hrep.notEmpty, hrep.notDirectory⟩) Bool.false_ne_true
    | some other =>
      rw [hr] at hiff
      obtain ⟨hempty, hdirectory⟩ := hiff.mp rfl
      exact .inl ⟨⟨ho, hempty, hdirectory⟩, other, rfl, rfl⟩

theorem Houses.sameWays_of_replace (h : disk.Houses path) (hd : disk.HasDirectory path)
    {content : Bytes} (hr : disk.replace path content = (other, false)) : disk.SameWays other := by
  obtain ⟨between, hb, ⟨_, _, _, hrep⟩ | ⟨_, hrep⟩⟩ := h.replace_cases hd content
  · rw [hr] at hrep
    exact absurd (Prod.mk.inj hrep).2 (by decide)
  · rw [hr] at hrep
    rwa [(Prod.mk.inj hrep).1]

/-- A file that is replaced under its own name leaves the ways as they were, too. -/
theorem Houses.sameWays_replaced (h : disk.Houses path) (hd : disk.HasDirectory path)
    (hl : ∀ target, disk.at? false path ≠ some (.link target)) {content : Bytes}
    (hr : disk.replace path content = (other, true)) : disk.SameWays other := by
  obtain ⟨between, hb, ⟨_, _, hrename, hrep⟩ | ⟨_, hrep⟩⟩ := h.replace_cases hd content
  · rw [hr] at hrep
    obtain rfl := (Prod.mk.inj hrep).1
    obtain ⟨start, into, node, hs, ht, hn, hnode, hinto, rfl⟩ := rename?_cases hrename
    split
    · exact hb
    · refine hb.trans (IsOffWay.sameWays_moved ?_ ?_ hn)
      · refine ⟨fun hp => hnode (Option.some.inj (hn.symm.trans hp)), fun target hp => ?_⟩
        exact h.beside.ne_link target
          ((hb.leadsTo_iff.mp hs).at?.trans (hb.back.link start target hp))
      · refine ⟨hinto, fun target hp => hl target ?_⟩
        exact (hb.leadsTo_iff.mp ht).at?.trans (hb.back.link into target hp)
  · rw [hr] at hrep
    exact absurd (Prod.mk.inj hrep).2 (by decide)

theorem Houses.exists_replace (h : disk.Houses path) {number : Nat} {former : Bytes}
    (ha : disk.at? true path = some (.file number former)) {beside : Location}
    (hb : disk.LeadsTo false (besidePath path) beside)
    (hd : disk.at? false (besidePath path) ≠ some .directory) (content : Bytes) :
    ∃ other, disk.replace path content = (other, true) := by
  obtain ⟨opened, made, hmade⟩ := h.beside.exists_openFile? hb hd false
  obtain ⟨place, hl, _⟩ := exists_of_at? ha
  have hrep : disk.IsReplaceable path :=
    ⟨Option.isSome_of_eq_some hmade, hl.notEmpty, by simp [ha]⟩
  obtain ⟨between, _, ⟨_, other, _, hr⟩ | ⟨hnot, _⟩⟩ :=
    h.replace_cases (hasDirectory_of_at? ha) content
  · exact ⟨other, hr⟩
  · exact absurd hrep hnot

/-- Replacing the file goes alike in two trees of the same ways. -/
theorem SameWays.replace {disk' : Disk} (hs : disk.SameWays disk') (h : disk.Houses path)
    (h' : disk'.Houses path) (hd : disk.HasDirectory path) (content : Bytes) :
    ∃ other other' done, disk.replace path content = (other, done) ∧
      disk'.replace path content = (other', done) ∧ other.SameWays other' := by
  obtain ⟨between, hb, hcases⟩ := h.replace_cases hd content
  obtain ⟨between', hb', hcases'⟩ := h'.replace_cases (hd.of_sameWays hs) content
  have hbetween : between.SameWays between' := hb.symm.trans (hs.trans hb')
  rcases hcases with ⟨hr, other, hother, hrep⟩ | ⟨hr, hrep⟩
  · rcases hcases' with ⟨_, other', hother', hrep'⟩ | ⟨hr', _⟩
    · exact ⟨other, other', true, hrep, hrep', hbetween.rename? hother hother'⟩
    · exact absurd (hr.of_sameWays hs) hr'
  · rcases hcases' with ⟨hr', _⟩ | ⟨_, hrep'⟩
    · exact absurd (hr'.of_sameWays hs.symm) hr
    · exact ⟨between, between', false, hrep, hrep', hbetween⟩

end Countersign.Disk
