import Countersign.Disk.Replace

/-! What stands where after a change to a file tree, and the changes that take nothing away: new
directories, and other content in the files that are there. -/

namespace Countersign

/-- The node with other content, if it is a file. -/
def Node.withContent (content : Bytes) : Node → Node
  | .file number _ => .file number content
  | node => node

namespace Disk

/-! ### Single nodes -/

theorem node?_nil (disk : Disk) : disk.node? [] = some .directory := rfl

theorem lookup_filter_ne (entries : List (Location × Node)) {place other : Location}
    (h : other ≠ place) : (entries.filter (·.1 ≠ place)).lookup other = entries.lookup other := by
  induction entries with
  | nil => rfl
  | cons e rest ih =>
    obtain ⟨key, node⟩ := e
    by_cases hk : key = place
    · have hne : (other == key) = false := beq_eq_false_iff_ne.mpr (hk ▸ h)
      rw [List.filter_cons_of_neg (by simp [hk]), List.lookup_cons, hne]
      exact ih
    · rw [List.filter_cons_of_pos (by simp [hk]), List.lookup_cons, List.lookup_cons, ih]

theorem lookup_filter_self (entries : List (Location × Node)) (place : Location) :
    (entries.filter (·.1 ≠ place)).lookup place = none := by
  induction entries with
  | nil => rfl
  | cons e rest ih =>
    obtain ⟨key, node⟩ := e
    by_cases hk : key = place
    · rw [List.filter_cons_of_neg (by simp [hk])]
      exact ih
    · have hne : (place == key) = false := beq_eq_false_iff_ne.mpr (fun h => hk h.symm)
      rw [List.filter_cons_of_pos (by simp [hk]), List.lookup_cons, hne]
      exact ih

theorem node?_set_self (disk : Disk) {place : Location} (h : place ≠ []) (node : Node) :
    (disk.set place node).node? place = some node := by
  simp [node?, set, h]

theorem node?_set_of_ne (disk : Disk) {place other : Location} (h : other ≠ place) (node : Node) :
    (disk.set place node).node? other = disk.node? other := by
  have hne : (other == place) = false := beq_eq_false_iff_ne.mpr h
  have hl := lookup_filter_ne disk.nodes h
  simp only [node?, set, List.lookup_cons, hne, hl]

theorem node?_erase_self (disk : Disk) {place : Location} (h : place ≠ []) :
    (disk.erase place).node? place = none := by
  have hl := lookup_filter_self disk.nodes place
  simp only [node?, erase, List.isEmpty_iff, h, if_false, hl]

theorem node?_erase_of_ne (disk : Disk) {place other : Location} (h : other ≠ place) :
    (disk.erase place).node? other = disk.node? other := by
  have hl := lookup_filter_ne disk.nodes h
  simp only [node?, erase, hl]

theorem ne_nil_of_node? {disk : Disk} {place : Location} (h : disk.node? place = none) :
    place ≠ [] := by
  rintro rfl
  rw [node?_nil] at h
  exact nomatch h

/-- What `changeFile` makes of one node. -/
def changed (number : Nat) (change : Bytes → Bytes) : Node → Node
  | .file other content => .file other (if other = number then change content else content)
  | node => node

theorem node?_changeFile (disk : Disk) (number : Nat) (change : Bytes → Bytes) (place : Location) :
    (disk.changeFile number change).node? place =
      (disk.node? place).map (changed number change) := by
  unfold node?
  split
  · rfl
  · have hmap : (disk.changeFile number change).nodes =
        disk.nodes.map fun e => (e.1, changed number change e.2) := by
      apply List.map_congr_left
      rintro ⟨q, node⟩ _
      cases node <;> rfl
    rw [hmap]
    induction disk.nodes with
    | nil => rfl
    | cons e rest ih =>
      obtain ⟨key, node⟩ := e
      cases hk : place == key with
      | false => simp [List.lookup_cons, hk, ih]
      | true => simp [List.lookup_cons, hk]

/-! ### Growing -/

/-- One tree has all that stands in the other, and beyond it only directories. Files may hold
something else. -/
structure Grows (disk grown : Disk) : Prop where
  working : grown.working = disk.working
  made : disk.made ≤ grown.made
  node : ∀ place, (∃ content, grown.node? place = (disk.node? place).map (·.withContent content)) ∨
    (disk.node? place = none ∧ grown.node? place = some .directory)

theorem withContent_self (node : Node) : ∃ content, node.withContent content = node := by
  cases node with
  | file number content => exact ⟨content, rfl⟩
  | directory => exact ⟨[], rfl⟩
  | link target => exact ⟨[], rfl⟩
  | device => exact ⟨[], rfl⟩

theorem withContent_withContent (node : Node) (first second : Bytes) :
    (node.withContent first).withContent second = node.withContent second := by
  cases node <;> rfl

theorem Grows.refl (disk : Disk) : disk.Grows disk := by
  refine ⟨rfl, Nat.le_refl _, fun place => .inl ?_⟩
  cases disk.node? place with
  | none => exact ⟨[], rfl⟩
  | some node =>
    obtain ⟨content, hc⟩ := withContent_self node
    exact ⟨content, by rw [Option.map_some, hc]⟩

theorem Grows.trans {first second third : Disk} (h : first.Grows second) (h' : second.Grows third) :
    first.Grows third := by
  refine ⟨h'.working.trans h.working, Nat.le_trans h.made h'.made, fun place => ?_⟩
  rcases h.node place with ⟨content, hc⟩ | ⟨hnone, hdir⟩
  · rcases h'.node place with ⟨content', hc'⟩ | ⟨hnone', hdir'⟩
    · left
      refine ⟨content', ?_⟩
      rw [hc', hc, Option.map_map]
      cases first.node? place with
      | none => rfl
      | some node => simp [withContent_withContent]
    · right
      refine ⟨?_, hdir'⟩
      rw [hc] at hnone'
      simpa using hnone'
  · right
    refine ⟨hnone, ?_⟩
    rcases h'.node place with ⟨content', hc'⟩ | ⟨hnone', _⟩
    · rw [hc', hdir]
      rfl
    · rw [hdir] at hnone'
      exact nomatch hnone'

theorem Grows.of_some {disk grown : Disk} (h : disk.Grows grown) {place : Location} {node : Node}
    (hn : disk.node? place = some node) :
    ∃ content, grown.node? place = some (node.withContent content) := by
  rcases h.node place with ⟨content, hc⟩ | ⟨hnone, _⟩
  · exact ⟨content, by rw [hc, hn, Option.map_some]⟩
  · rw [hn] at hnone
    exact nomatch hnone

theorem Grows.of_none {disk grown : Disk} (h : disk.Grows grown) {place : Location}
    (hn : disk.node? place = none) :
    grown.node? place = none ∨ grown.node? place = some .directory := by
  rcases h.node place with ⟨content, hc⟩ | ⟨_, hdir⟩
  · exact .inl (by rw [hc, hn, Option.map_none])
  · exact .inr hdir

theorem grows_set_directory {disk : Disk} {place : Location} (h : disk.node? place = none) :
    disk.Grows (disk.set place .directory) := by
  have hne := ne_nil_of_node? h
  refine ⟨rfl, Nat.le_refl _, fun other => ?_⟩
  by_cases ho : other = place
  · subst ho
    exact .inr ⟨h, node?_set_self disk hne _⟩
  · rw [node?_set_of_ne disk ho]
    exact (Grows.refl disk).node other

theorem grows_changeFile (disk : Disk) (number : Nat) (change : Bytes → Bytes) :
    disk.Grows (disk.changeFile number change) := by
  refine ⟨rfl, Nat.le_refl _, fun place => .inl ?_⟩
  rw [node?_changeFile]
  cases disk.node? place with
  | none => exact ⟨[], rfl⟩
  | some node =>
    cases node with
    | file other content => exact ⟨_, rfl⟩
    | directory => exact ⟨[], rfl⟩
    | link target => exact ⟨[], rfl⟩
    | device => exact ⟨[], rfl⟩

end Disk
end Countersign
