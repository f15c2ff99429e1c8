import Countersign.Proofs.Disk.Paths

/-! A file that is replaced by way of the one beside it. As long as the one path leads to a plain
file and the other is that of one, or of nothing yet, no step but the last touches the first
file. -/

namespace Countersign

open FileStep (besidePath)

namespace Disk

/-- What a path leads to. Whether a link at its end is followed is said. -/
def at? (disk : Disk) (follow : Bool) (path : String) : Option Node :=
  match disk.resolve follow path with
  | .ok (_, node) => node
  | .error _ => none

variable {disk grown other : Disk} {follow : Bool} {path : String}

theorem find?_eq_at? (disk : Disk) (path : String) : disk.find? path = disk.at? true path := rfl

theorem LeadsTo.at? {place : Location} (h : disk.LeadsTo follow path place) :
    disk.at? follow path = disk.node? place := by
  simp only [Disk.at?, h.resolve]

theorem exists_of_at? {node : Node} (h : disk.at? follow path = some node) :
    ∃ place, disk.LeadsTo follow path place ∧ disk.node? place = some node := by
  unfold Disk.at? at h
  split at h
  · rename_i place found hr
    obtain ⟨hl, hn⟩ := resolve_eq_ok_iff.mp hr
    exact ⟨place, hl, by rw [← hn, h]⟩
  · exact nomatch h

theorem at?_of_not_link (h : ∀ target, disk.at? false path ≠ some (.link target)) (follow : Bool) :
    disk.at? follow path = disk.at? false path := by
  cases follow with
  | false => rfl
  | true =>
    by_cases hl : ∃ place, disk.LeadsTo false path place
    · obtain ⟨place, hl⟩ := hl
      have hf := hl.followed fun target ht => h target (by rw [hl.at?, ht])
      rw [hf.at?, hl.at?]
    · have hnone : ∀ follow, disk.at? follow path = none := by
        intro follow
        cases ha : disk.at? follow path with
        | none => rfl
        | some node =>
          obtain ⟨place, hp, _⟩ := exists_of_at? ha
          cases follow with
          | false => exact absurd ⟨place, hp⟩ hl
          | true => exact absurd hp.exists_unfollowed hl
      rw [hnone, hnone]

/-- A path that is not that of a link leads to one place, whether or not links are followed. -/
theorem LeadsTo.unfollowed {place : Location} (h : disk.LeadsTo true path place)
    (hl : ∀ target, disk.at? false path ≠ some (.link target)) :
    disk.LeadsTo false path place := by
  obtain ⟨other, ho⟩ := h.exists_unfollowed
  obtain rfl := (ho.followed fun target ht => hl target (by rw [ho.at?, ht])).unique h
  exact ho

theorem KeepsWays.at? (hk : disk.KeepsWays other) {place : Location}
    (hl : disk.LeadsTo follow path place) {node : Node} (hn : other.node? place = some node)
    (hlink : ∀ target, node ≠ .link target) : other.at? follow path = some node := by
  have hkept := hl.of_keepsWays hk fun _ target ht => hlink target (by
    rw [hn] at ht
    exact Option.some.inj ht)
  rw [hkept.at?, hn]

/-! ### Nothing but a plain file -/

/-- Nothing stands at the path, unless it becomes or is that of a directory. -/
def IsVacant (disk : Disk) (path : String) : Prop :=
  ∀ grown, disk.Grows grown → ∀ node, grown.at? false path = some node → node = .directory

/-- What the path leads to is a plain file, if it is anything but a directory. -/
def IsPlain (disk : Disk) (follow : Bool) (path : String) : Prop :=
  disk.IsVacant path ∨ ∃ number content, disk.at? follow path = some (.file number content) ∧
    number < disk.made

theorem isVacant_of_leadsTo {place : Location} (h : disk.LeadsTo false path place)
    (hn : disk.node? place = none ∨ disk.node? place = some .directory) : disk.IsVacant path := by
  intro grown hg node hnode
  rw [(h.of_keepsWays hg.keepsWays nofun).at?] at hnode
  rcases hn with hn | hn
  · rcases hg.of_none hn with hnone | hdir
    · rw [hnone] at hnode
      exact nomatch hnode
    · rw [hdir] at hnode
      exact (Option.some.inj hnode).symm
  · obtain ⟨_, hdir⟩ := hg.of_some hn
    rw [hdir] at hnode
    exact (Option.some.inj hnode).symm

theorem IsVacant.grow (h : disk.IsVacant path) (hg : disk.Grows grown) : grown.IsVacant path :=
  fun other ho => h other (hg.trans ho)

theorem IsVacant.at? (h : disk.IsVacant path) (follow : Bool) :
    disk.at? follow path = none ∨ disk.at? follow path = some .directory := by
  have hfalse : disk.at? false path = none ∨ disk.at? false path = some .directory := by
    cases ha : disk.at? false path with
    | none => exact .inl rfl
    | some node => exact .inr (congrArg some (h disk (Grows.refl disk) node ha))
  rw [at?_of_not_link (fun target ht => ?_) follow]
  · exact hfalse
  · rcases hfalse with ha | ha <;> simp [ha] at ht

theorem Grows.at?_file (hg : disk.Grows grown) {number : Nat} {content : Bytes}
    (h : disk.at? follow path = some (.file number content)) :
    ∃ other, grown.at? follow path = some (.file number other) := by
  obtain ⟨place, hl, hn⟩ := exists_of_at? h
  obtain ⟨other, ho⟩ := hg.of_some hn
  exact ⟨other, hg.keepsWays.at? hl ho nofun⟩

theorem KeepsWays.at?_directory (hk : disk.KeepsWays other)
    (h : disk.at? follow path = some .directory) : other.at? follow path = some .directory := by
  obtain ⟨place, hl, hn⟩ := exists_of_at? h
  exact hk.at? hl (hk.directory place hn) nofun

theorem IsPlain.grow (h : disk.IsPlain follow path) (hg : disk.Grows grown) :
    grown.IsPlain follow path := by
  rcases h with hv | ⟨number, content, ha, hlt⟩
  · exact .inl (hv.grow hg)
  · obtain ⟨other, ho⟩ := hg.at?_file ha
    exact .inr ⟨number, other, ho, Nat.lt_of_lt_of_le hlt hg.made⟩

theorem IsPlain.ne_link (h : disk.IsPlain follow path) (target : String) :
    disk.at? follow path ≠ some (.link target) := by
  rcases h with hv | ⟨number, content, ha, _⟩
  · rcases hv.at? follow with ha | ha <;> simp [ha]
  · simp [ha]

theorem IsPlain.of_at?_file (h : disk.IsPlain follow path) {number : Nat} {content : Bytes}
    (ha : disk.at? follow path = some (.file number content)) : number < disk.made := by
  rcases h with hv | ⟨number', content', ha', hlt⟩
  · rcases hv.at? follow with hh | hh <;> simp [ha] at hh
  · rw [ha] at ha'
    cases ha'
    exact hlt

/-- The path leads to a file which can be replaced by way of the one beside it. That one is no
link, and the two are not one file; the path itself may be that of a link to an existing file. -/
structure Houses (disk : Disk) (path : String) : Prop where
  file : disk.IsPlain true path
  beside : disk.IsPlain false (besidePath path)
  apart : ∀ number content other, disk.at? true path = some (.file number content) →
    disk.at? false (besidePath path) ≠ some (.file number other)
  rooted : disk.IsRooted disk.working

/-- A file that is there under its own name, with nothing beside it. -/
theorem IsSingle.houses (h : IsSingle path) (hb : IsSingle (besidePath path))
    (hw : disk.IsRooted disk.working) {number : Nat} {content : Bytes}
    (hf : disk.node? (disk.working ++ [path]) = some (.file number content))
    (hlt : number < disk.made) (hnone : disk.node? (disk.working ++ [besidePath path]) = none) :
    disk.Houses path ∧ disk.at? true path = some (.file number content) := by
  have hl := h.leadsTo disk
  have hbeside := hb.leadsTo disk
  have ha : disk.at? true path = some (.file number content) := by
    rw [at?_of_not_link (by simp [hl.at?, hf]), hl.at?, hf]
  refine ⟨⟨.inr ⟨number, content, ha, hlt⟩, .inl (isVacant_of_leadsTo hbeside (.inl hnone)),
    fun _ _ _ _ hb => ?_, hw⟩, ha⟩
  rw [hbeside.at?, hnone] at hb
  exact nomatch hb

/-- A change that leaves a file and the one beside it what they are. Where there is no file yet,
there is none or a new one that is empty. -/
structure LeavesAlone (disk other : Disk) (path : String) : Prop where
  houses : other.Houses path
  made : disk.made ≤ other.made
  file : ∀ number content, disk.at? true path = some (.file number content) →
    other.at? true path = some (.file number content)
  directory : disk.at? true path = some .directory → other.at? true path = some .directory
  vacant : disk.at? true path = none → ∀ node, other.at? true path = some node →
    node = .directory ∨ ∃ number, node = .file number [] ∧ disk.made ≤ number
  beside : ∀ number content, other.at? false (besidePath path) = some (.file number content) →
    disk.made ≤ number ∨ ∃ former, disk.at? false (besidePath path) = some (.file number former)

theorem LeavesAlone.refl (h : disk.Houses path) : disk.LeavesAlone disk path :=
  ⟨h, Nat.le_refl _, fun _ _ ha => ha, fun ha => ha, fun hn _ ha => absurd ha (by simp [hn]),
    fun _ content ha => .inr ⟨content, ha⟩⟩

theorem LeavesAlone.trans {first second third : Disk} (h : first.LeavesAlone second path)
    (h' : second.LeavesAlone third path) : first.LeavesAlone third path := by
  refine ⟨h'.houses, Nat.le_trans h.made h'.made, fun number content ha =>
    h'.file number content (h.file number content ha), fun ha => h'.directory (h.directory ha),
    fun hn node ha => ?_, fun number content ha => ?_⟩
  · cases hs : second.at? true path with
    | none =>
      rcases h'.vacant hs node ha with hd | ⟨number, hnode, hle⟩
      · exact .inl hd
      · exact .inr ⟨number, hnode, Nat.le_trans h.made hle⟩
    | some middle =>
      rcases h.vacant hn middle hs with rfl | ⟨number, rfl, hle⟩
      · rw [h'.directory hs] at ha
        exact .inl (Option.some.inj ha).symm
      · rw [h'.file number [] hs] at ha
        exact .inr ⟨number, (Option.some.inj ha).symm, hle⟩
  · rcases h'.beside number content ha with hle | ⟨former, hf⟩
    · exact .inl (Nat.le_trans h.made hle)
    · exact h.beside number former hf

theorem IsPlain.of_grows (h : disk.IsPlain follow path) (hg : disk.Grows grown) {number : Nat}
    {content : Bytes} (ha : grown.at? follow path = some (.file number content)) :
    ∃ former, disk.at? follow path = some (.file number former) := by
  rcases h with hv | ⟨other, former, ho, _⟩
  · rcases (hv.grow hg).at? follow with hnone | hdir
    · rw [hnone] at ha
      exact nomatch ha
    · rw [hdir] at ha
      exact nomatch ha
  · obtain ⟨content', hc⟩ := hg.at?_file ho
    rw [ha] at hc
    cases hc
    exact ⟨former, ho⟩

theorem KeepsWays.isRooted (hk : disk.KeepsWays other) (h : disk.IsRooted disk.working) :
    other.IsRooted other.working := by
  rw [hk.working]
  exact h.of_keepsWays hk

theorem Houses.leavesAlone_of_grows (h : disk.Houses path) (hg : disk.Grows grown)
    (hf : ∀ number content, disk.at? true path = some (.file number content) →
      grown.at? true path = some (.file number content)) : disk.LeavesAlone grown path := by
  refine ⟨⟨h.file.grow hg, h.beside.grow hg, fun number content other ha hb => ?_,
    hg.keepsWays.isRooted h.rooted⟩, hg.made, hf, hg.keepsWays.at?_directory, fun hn node ha => ?_,
    fun number content ha => .inr (h.beside.of_grows hg ha)⟩
  · obtain ⟨former, hformer⟩ := h.file.of_grows hg ha
    obtain ⟨former', hformer'⟩ := h.beside.of_grows hg hb
    exact h.apart number former former' hformer hformer'
  · rcases h.file with hv | ⟨number, content, ho, _⟩
    · rcases (hv.grow hg).at? true with hnone | hdir
      · rw [hnone] at ha
        exact nomatch ha
      · rw [hdir] at ha
        exact .inl (Option.some.inj ha).symm
    · rw [hn] at ho
      exact nomatch ho

end Disk
end Countersign
