import Countersign.Proofs.Disk.Replace

/-! Ways that stay. Files come, go and change without a change to where paths lead, and the same
operation on two trees that differ in their files only keeps them so. -/

namespace Countersign.Disk

variable {disk other third : Disk} {path : String}

/-! ### The same ways -/

theorem KeepsWays.refl (disk : Disk) : disk.KeepsWays disk :=
  ⟨rfl, fun _ hd => hd, fun _ _ hl => hl⟩

theorem KeepsWays.trans (h : disk.KeepsWays other) (h' : other.KeepsWays third) :
    disk.KeepsWays third :=
  ⟨h'.working.trans h.working, fun place hd => h'.directory place (h.directory place hd),
    fun place target hl => h'.link place target (h.link place target hl)⟩

/-- Two trees that differ in their files only. -/
structure SameWays (disk other : Disk) : Prop where
  forth : disk.KeepsWays other
  back : other.KeepsWays disk

theorem SameWays.refl (disk : Disk) : disk.SameWays disk := ⟨.refl disk, .refl disk⟩

theorem SameWays.symm (h : disk.SameWays other) : other.SameWays disk := ⟨h.back, h.forth⟩

theorem SameWays.trans (h : disk.SameWays other) (h' : other.SameWays third) :
    disk.SameWays third := ⟨h.forth.trans h'.forth, h'.back.trans h.back⟩

theorem SameWays.at?_directory_iff (h : disk.SameWays other) {follow : Bool} :
    other.at? follow path = some .directory ↔ disk.at? follow path = some .directory :=
  ⟨h.back.at?_directory, h.forth.at?_directory⟩

theorem SameWays.leadsTo_iff (h : disk.SameWays other) {place : Location} :
    other.LeadsTo false path place ↔ disk.LeadsTo false path place :=
  ⟨fun hl => hl.of_keepsWays h.back nofun, fun hl => hl.of_keepsWays h.forth nofun⟩

theorem sameWays_addFile {place : Location} (h : disk.node? place = none) :
    disk.SameWays (disk.addFile place) := by
  have hne : ∀ place' node, (disk.addFile place).node? place' = some node →
      (∀ content, node ≠ .file disk.made content) → disk.node? place' = some node := by
    intro place' node hn hnode
    by_cases hp : place' = place
    · subst hp
      rw [node?_addFile_self h] at hn
      exact absurd (Option.some.inj hn).symm (hnode [])
    · rwa [node?_addFile_of_ne hp] at hn
  exact ⟨keepsWays_addFile h, rfl, fun place' hd => hne place' _ hd nofun,
    fun place' target hl => hne place' _ hl nofun⟩

theorem sameWays_changeFile (disk : Disk) (number : Nat) (change : Bytes → Bytes) :
    disk.SameWays (disk.changeFile number change) := by
  have hnode : ∀ place node, (disk.changeFile number change).node? place = some node →
      (∀ number content, node ≠ .file number content) → disk.node? place = some node := by
    intro place node hn hplain
    rw [node?_changeFile] at hn
    obtain ⟨former, hf, hc⟩ := Option.map_eq_some_iff.mp hn
    cases former with
    | file _ _ => exact absurd hc.symm (hplain _ _)
    | directory => exact hf.trans (congrArg some hc)
    | link _ => exact hf.trans (congrArg some hc)
    | device => exact hf.trans (congrArg some hc)
  exact ⟨(grows_changeFile disk number change).keepsWays, rfl,
    fun place hd => hnode place _ hd nofun, fun place target hl => hnode place _ hl nofun⟩

theorem sameWays_openFile? {keep : Bool} {opened : Opened}
    (h : disk.openFile? keep path = some (opened, other)) : disk.SameWays other := by
  rcases openFile?_cases h with ⟨place, _, hn, _, rfl⟩ | ⟨number, content, _, _, rfl⟩ | ⟨_, _, rfl⟩
  · exact sameWays_addFile hn
  · cases keep with
    | true => exact .refl disk
    | false => exact sameWays_changeFile disk number _
  · exact .refl _

theorem sameWays_write? {content : Bytes} (h : disk.write? path content = some other) :
    disk.SameWays other := by
  obtain ⟨⟨opened, opening⟩, ho, rfl⟩ := Option.map_eq_some_iff.mp h
  have hopening := sameWays_openFile? ho
  cases opened with
  | file number => exact hopening.trans (sameWays_changeFile opening number _)
  | device => exact hopening

theorem openFile?_isSome_iff {keep : Bool} : (disk.openFile? keep path).isSome = true ↔
    ∃ place, disk.LeadsTo true path place ∧ disk.node? place ≠ some .directory ∧
      ∀ target, disk.node? place ≠ some (.link target) := by
  constructor
  · intro h
    unfold openFile? at h
    split at h
    · rename_i place hr
      obtain ⟨hl, hn⟩ := resolve_eq_ok_iff.mp hr
      exact ⟨place, hl, by simp [← hn], by simp [← hn]⟩
    · rename_i place _ _ hr
      obtain ⟨hl, hn⟩ := resolve_eq_ok_iff.mp hr
      exact ⟨place, hl, by simp [← hn], by simp [← hn]⟩
    · rename_i place hr
      obtain ⟨hl, hn⟩ := resolve_eq_ok_iff.mp hr
      exact ⟨place, hl, by simp [← hn], by simp [← hn]⟩
    · exact nomatch h
  · rintro ⟨place, hl, hdirectory, hlink⟩
    rw [openFile?, hl.resolve]
    cases hn : disk.node? place with
    | none => rfl
    | some node =>
      cases node with
      | file _ _ => rfl
      | directory => exact absurd hn hdirectory
      | link target => exact absurd hn (hlink target)
      | device => rfl

/-- A file can be made under a name that nothing has. -/
theorem IsSingle.openFile?_isSome (h : IsSingle path) (keep : Bool)
    (hn : disk.node? (disk.working ++ [path]) = none) :
    (disk.openFile? keep path).isSome = true := by
  have hl := (h.leadsTo disk).followed fun target ht => nomatch hn.symm.trans ht
  exact openFile?_isSome_iff.mpr ⟨_, hl, by simp [hn], by simp [hn]⟩

theorem SameWays.openFile?_isSome (h : disk.SameWays other) (keep : Bool) (path : String) :
    (other.openFile? keep path).isSome = (disk.openFile? keep path).isSome := by
  have hone : ∀ {first second : Disk}, first.SameWays second →
      (first.openFile? keep path).isSome = true → (second.openFile? keep path).isSome = true := by
    intro first second hs ho
    obtain ⟨place, hl, hdirectory, hlink⟩ := openFile?_isSome_iff.mp ho
    have hlink' : ∀ target, second.node? place ≠ some (.link target) :=
      fun target ht => hlink target (hs.back.link place target ht)
    exact openFile?_isSome_iff.mpr ⟨place, hl.of_keepsWays hs.forth fun _ => hlink',
      fun hd => hdirectory (hs.back.directory place hd), hlink'⟩
  exact Bool.eq_iff_iff.mpr ⟨hone h.symm, hone h⟩

/-! ### Moving -/

theorem node?_moved {start into : Location} (hs : start ≠ []) (hi : into ≠ []) (node : Node)
    (place : Location) : (disk.moved start into node).node? place =
      if place = into then some node else if place = start then none else disk.node? place := by
  split
  · rename_i hp
    rw [hp, moved, node?_set_self _ hi]
  · rename_i hp
    rw [moved, node?_set_of_ne _ hp]
    split
    · rename_i hstart
      rw [hstart, node?_erase_self disk hs]
    · rename_i hstart
      rw [node?_erase_of_ne disk hstart]

theorem rename?_cases {source target : String} (h : disk.rename? source target = some other) :
    ∃ start into node, disk.LeadsTo false source start ∧ disk.LeadsTo false target into ∧
      disk.node? start = some node ∧ node ≠ .directory ∧ disk.node? into ≠ some .directory ∧
      other = if start = into then disk else disk.moved start into node := by
  unfold rename? at h
  split at h
  · exact nomatch h
  · exact nomatch h
  · rename_i start node into found hfile hover hstart hinto
    obtain ⟨hs, hn⟩ := resolve_eq_ok_iff.mp hstart
    obtain ⟨ht, rfl⟩ := resolve_eq_ok_iff.mp hinto
    refine ⟨start, into, node, hs, ht, hn.symm, ?_, hover, ?_⟩
    · rintro rfl
      exact hfile rfl
    · split at h
      · rename_i heq
        rw [if_pos heq, ← Option.some.inj h]
      · rename_i hne
        rw [if_neg hne, ← Option.some.inj h]
        rfl
  · exact nomatch h

theorem KeepsWays.moved (h : disk.KeepsWays other) {start into : Location} {node node' : Node}
    (hs : disk.node? start = some node) (hs' : other.node? start = some node')
    (hd : node ≠ .directory) (hi : disk.node? into ≠ some .directory) :
    (disk.moved start into node).KeepsWays (other.moved start into node') := by
  have hstart : start ≠ [] := by
    rintro rfl
    rw [node?_nil] at hs
    exact hd (Option.some.inj hs).symm
  have hinto : into ≠ [] := by
    rintro rfl
    exact hi (node?_nil disk)
  refine ⟨h.working, fun place hp => ?_, fun place target hp => ?_⟩
  · rw [node?_moved hstart hinto] at hp ⊢
    split at hp
    · exact absurd (Option.some.inj hp) hd
    · rename_i hne
      rw [if_neg hne]
      split at hp
      · exact nomatch hp
      · rename_i hne'
        rw [if_neg hne', h.directory place hp]
  · rw [node?_moved hstart hinto] at hp ⊢
    split at hp
    · rename_i heq
      rw [Option.some.inj hp] at hs
      rw [if_pos heq, ← hs', h.link start target hs]
    · rename_i hne
      rw [if_neg hne]
      split at hp
      · exact nomatch hp
      · rename_i hne'
        rw [if_neg hne', h.link place target hp]

/-- Neither a directory nor a link stands at the place. -/
def IsOffWay (disk : Disk) (place : Location) : Prop :=
  disk.node? place ≠ some .directory ∧ ∀ target, disk.node? place ≠ some (.link target)

/-- A move between places that no way leads through is none of directories or links. -/
theorem IsOffWay.sameWays_moved {start into : Location} {node : Node} (hs : disk.IsOffWay start)
    (hi : disk.IsOffWay into) (hn : disk.node? start = some node) :
    disk.SameWays (disk.moved start into node) := by
  have hdirectory : ∀ {place}, disk.node? place = some .directory → place ≠ start ∧ place ≠ into :=
    fun hp => ⟨fun heq => hs.1 (heq ▸ hp), fun heq => hi.1 (heq ▸ hp)⟩
  have hlink : ∀ {place target}, disk.node? place = some (.link target) →
      place ≠ start ∧ place ≠ into :=
    fun hp => ⟨fun heq => hs.2 _ (heq ▸ hp), fun heq => hi.2 _ (heq ▸ hp)⟩
  have hstart : start ≠ [] := fun heq => hs.1 (heq ▸ node?_nil disk)
  have hinto : into ≠ [] := fun heq => hi.1 (heq ▸ node?_nil disk)
  have hnode : ∀ place, (disk.moved start into node).node? place =
      if place = into then some node else if place = start then none else disk.node? place :=
    node?_moved hstart hinto node
  have hback : ∀ {place other}, (disk.moved start into node).node? place = some other →
      other ≠ node → disk.node? place = some other := by
    intro place other hp hne
    rw [hnode] at hp
    split at hp
    · exact absurd (Option.some.inj hp).symm hne
    · split at hp
      · exact nomatch hp
      · exact hp
  refine ⟨⟨rfl, fun place hp => ?_, fun place target hp => ?_⟩, rfl, fun place hp => ?_,
    fun place target hp => ?_⟩
  · rw [hnode, if_neg (hdirectory hp).2, if_neg (hdirectory hp).1, hp]
  · rw [hnode, if_neg (hlink hp).2, if_neg (hlink hp).1, hp]
  · exact hback hp fun heq => hs.1 (heq ▸ hn)
  · exact hback hp fun heq => hs.2 target (heq ▸ hn)

/-- The same move leaves the same ways, whatever is in the files. -/
theorem SameWays.rename? {disk' other' : Disk} (h : disk.SameWays disk') {source target : String}
    (hr : disk.rename? source target = some other)
    (hr' : disk'.rename? source target = some other') : other.SameWays other' := by
  obtain ⟨start, into, node, hs, ht, hn, hd, hi, rfl⟩ := rename?_cases hr
  obtain ⟨start', into', node', hs', ht', hn', hd', hi', rfl⟩ := rename?_cases hr'
  obtain rfl := (h.leadsTo_iff.mp hs').unique hs
  obtain rfl := (h.leadsTo_iff.mp ht').unique ht
  split
  · exact h
  · exact ⟨h.forth.moved hn hn' hd hi, h.back.moved hn' hn hd' hi'⟩

end Countersign.Disk
