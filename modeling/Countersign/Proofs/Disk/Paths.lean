import Countersign.Proofs.Disk.Walk

/-! Paths that differ at their ends only. Where one of them leads somewhere, so does the path that
both continue, and what is written behind a name makes it the name of another entry. -/

namespace Countersign

namespace Path

theorem splitNames_of_not_mem {s : List Char} (h : '/' ∉ s) : names.splitNames s = [s] := by
  induction s with
  | nil => rfl
  | cons c rest ih =>
    have hc : c ≠ '/' := fun hh => h (by simp [hh])
    rw [names.splitNames, if_neg hc, ih (fun hm => h (List.mem_cons_of_mem _ hm))]

/-- What is added without a separator goes to the last name. -/
theorem exists_splitNames (s : List Char) : ∃ dirs name, ∀ more, '/' ∉ more →
    names.splitNames (s ++ more) = dirs ++ [name ++ more] := by
  induction s with
  | nil => exact ⟨[], [], fun more hm => splitNames_of_not_mem hm⟩
  | cons c rest ih =>
    obtain ⟨dirs, name, hall⟩ := ih
    by_cases hc : c = '/'
    · exact ⟨[] :: dirs, name, fun more hm => by
        rw [List.cons_append, names.splitNames, if_pos hc, hall more hm, List.cons_append]⟩
    · cases dirs with
      | nil => exact ⟨[], c :: name, fun more hm => by
          rw [List.cons_append, names.splitNames, if_neg hc, hall more hm]
          rfl⟩
      | cons dir dirs => exact ⟨(c :: dir) :: dirs, name, fun more hm => by
          rw [List.cons_append, names.splitNames, if_neg hc, hall more hm]
          rfl⟩

theorem exists_names (path : String) : ∃ dirs name, ∀ more : String, '/' ∉ more.toList →
    names (path ++ more) = dirs ++ [name ++ more] := by
  obtain ⟨dirs, name, hall⟩ := exists_splitNames path.toList
  refine ⟨dirs.map String.ofList, String.ofList name, fun more hm => ?_⟩
  rw [names, String.toList_append, hall more.toList hm]
  simp [String.ofList_append, String.ofList_toList]

theorem isAbsolute_iff {path : String} :
    isAbsolute path = true ↔ path.toList.head? = some '/' := by
  unfold isAbsolute
  split
  · rename_i rest hp
    simp [hp]
  · rename_i hp
    cases hl : path.toList with
    | nil => simp
    | cons c rest =>
      have hc : c ≠ '/' := fun hh => hp rest (by rw [hl, hh])
      simp [hc]

theorem isAbsolute_append {more : String} (h : '/' ∉ more.toList) (path : String) :
    isAbsolute (path ++ more) = isAbsolute path := by
  apply Bool.eq_iff_iff.mpr
  rw [isAbsolute_iff, isAbsolute_iff, String.toList_append, List.head?_append]
  cases hp : path.toList.head? with
  | some c => simp
  | none =>
    have hmore : more.toList.head? ≠ some '/' := fun hm => h (List.mem_of_head? hm)
    simp [hmore]

end Path

namespace Disk

variable {disk : Disk} {follow : Bool} {links : Nat} {here place : Location} {name path : String}

theorem Leads.unique {names : List String} {other : Location}
    (h : disk.Leads follow links here names place) (h' : disk.Leads follow links here names other) :
    place = other := by
  have hw := h.walk
  rw [h'.walk] at hw
  exact (Prod.mk.inj (Except.ok.inj hw)).1.symm

theorem Leads.single (h : disk.Leads false links here [name] place) :
    ((name = "" ∨ name = ".") ∧ place = here) ∨ (name = ".." ∧ place = here.dropLast) ∨
      (IsName name ∧ place = here ++ [name]) := by
  cases h with
  | skip hn h =>
    cases h
    exact .inl ⟨hn, rfl⟩
  | up h =>
    cases h
    exact .inr (.inl ⟨rfl, rfl⟩)
  | into hn hd h =>
    cases h
    exact .inr (.inr ⟨hn, rfl⟩)
  | along hn hl hr h => simp at hr
  | last hn hl => exact .inr (.inr ⟨hn, rfl⟩)

theorem isTooLong_of_leads (h : disk.Leads follow links here [name] place) :
    isTooLong name = false := by
  cases h with
  | skip hn h => rcases hn with rfl | rfl <;> decide
  | up h => decide
  | into hn hd h => exact hn.fits
  | along hn hl hr h => exact hn.fits
  | last hn hl => exact hn.fits

theorem exists_leads (disk : Disk) (links : Nat) (here : Location) (h : isTooLong name = false) :
    ∃ place, disk.Leads false links here [name] place := by
  by_cases hskip : name = "" ∨ name = "."
  · exact ⟨here, .skip hskip (.here links here)⟩
  · by_cases hup : name = ".."
    · subst hup
      exact ⟨here.dropLast, .up (.here links _)⟩
    · exact ⟨here ++ [name], .last ⟨hskip, hup, h⟩ (fun _ _ => rfl)⟩

/-! ### Whole paths -/

/-- The path leads to a place, whatever stands there. -/
structure LeadsTo (disk : Disk) (follow : Bool) (path : String) (place : Location) : Prop where
  notEmpty : path ≠ ""
  notBad : isBadPath path = false
  leads : disk.Leads follow 40 (if Path.isAbsolute path then [] else disk.working)
    (Path.names path) place

theorem resolve_eq_ok_iff {node : Option Node} :
    disk.resolve follow path = .ok (place, node) ↔
      disk.LeadsTo follow path place ∧ node = disk.node? place := by
  unfold resolve
  constructor
  · intro h
    split at h
    · exact nomatch h
    · split at h
      · exact nomatch h
      · rename_i hempty hbad
        obtain ⟨hl, hn⟩ := leads_of_walk h
        exact ⟨⟨by simpa using hempty, by simpa using hbad, hl⟩, hn⟩
  · rintro ⟨⟨hempty, hbad, hl⟩, rfl⟩
    rw [if_neg (by simpa using hempty), if_neg (by simp [hbad]), hl.walk]

theorem LeadsTo.resolve (h : disk.LeadsTo follow path place) :
    disk.resolve follow path = .ok (place, disk.node? place) := resolve_eq_ok_iff.mpr ⟨h, rfl⟩

theorem LeadsTo.unique {other : Location} (h : disk.LeadsTo follow path place)
    (h' : disk.LeadsTo follow path other) : place = other := h.leads.unique h'.leads

theorem LeadsTo.of_keepsWays {other : Disk} (hk : disk.KeepsWays other)
    (h : disk.LeadsTo follow path place)
    (hl : follow = true → ∀ target, other.node? place ≠ some (.link target)) :
    other.LeadsTo follow path place := by
  refine ⟨h.notEmpty, h.notBad, ?_⟩
  rw [hk.working]
  exact h.leads.of_keepsWays hk hl

theorem LeadsTo.of_keepsOtherWays {other : Disk} {gone : Location} {target : String}
    (hk : disk.KeepsOtherWays other gone target) (h : disk.LeadsTo false path place) :
    other.LeadsTo false path place := by
  refine ⟨h.notEmpty, h.notBad, ?_⟩
  rw [hk.working]
  exact h.leads.of_keepsOtherWays hk

/-- A link at the end of a path that leads to a file is on no other way. -/
theorem LeadsTo.blocked (h : disk.LeadsTo true path place) (hw : disk.IsRooted disk.working)
    {number : Nat} {content : Bytes} (hf : disk.node? place = some (.file number content))
    {gone : Location} (hg : disk.LeadsTo false path gone) {target : String}
    (hl : disk.node? gone = some (.link target)) (left : Nat) (rest : List String)
    (other : Location) (hr : rest ≠ []) :
    ¬ disk.Leads false left (linkStart target gone.dropLast) (Path.names target ++ rest) other := by
  have hstart : disk.IsRooted (if Path.isAbsolute path then [] else disk.working) :=
    hw.linkStart path
  obtain ⟨hrooted, left', htarget⟩ := hg.leads.exists_target hstart hl h.leads
  exact htarget.not_behind_file (hrooted.linkStart target) hf hr

theorem LeadsTo.followed (h : disk.LeadsTo false path place)
    (hl : ∀ target, disk.node? place ≠ some (.link target)) : disk.LeadsTo true path place :=
  ⟨h.notEmpty, h.notBad, h.leads.followed hl⟩

theorem LeadsTo.exists_unfollowed (h : disk.LeadsTo true path place) :
    ∃ other, disk.LeadsTo false path other := by
  obtain ⟨other, ho⟩ := h.leads.exists_unfollowed
  exact ⟨other, h.notEmpty, h.notBad, ho⟩

/-- Whether an entry that ends in `other` fits where one fits that ends in `more`. -/
structure IsEnding (other more : String) : Prop where
  fits : other.utf8ByteSize ≤ more.utf8ByteSize
  slash : '/' ∉ other.toList
  zero : '\x00' ∉ other.toList

theorem isBadPath_of_isEnding {other more : String} (h : IsEnding other more)
    (hb : isBadPath (path ++ more) = false) : isBadPath (path ++ other) = false := by
  have hfits := h.fits
  simp only [isBadPath, Bool.or_eq_false_iff, decide_eq_false_iff_not, String.utf8ByteSize_append,
    String.toList_append, List.contains_eq_mem, List.mem_append, not_or] at hb ⊢
  exact ⟨by omega, hb.2.1, h.zero⟩

theorem isTooLong_of_isEnding {other more : String} (h : IsEnding other more)
    (hl : isTooLong (name ++ more) = false) : isTooLong (name ++ other) = false := by
  have hfits := h.fits
  simp only [isTooLong, decide_eq_false_iff_not, String.utf8ByteSize_append] at hl ⊢
  omega

/-- Of two paths that differ at their ends, the shorter one leads somewhere if the other does. -/
theorem LeadsTo.exists_sibling {other more : String} (hm : '/' ∉ more.toList)
    (ho : IsEnding other more) (hne : path ++ other ≠ "")
    (h : disk.LeadsTo follow (path ++ more) place) :
    ∃ place', disk.LeadsTo false (path ++ other) place' := by
  obtain ⟨dirs, name, hnames⟩ := Path.exists_names path
  have hleads := h.leads
  rw [hnames more hm, Path.isAbsolute_append hm] at hleads
  obtain ⟨above, left, hlast, hall⟩ := hleads.exists_directory
  obtain ⟨place', hp⟩ := exists_leads disk left above
    (isTooLong_of_isEnding ho (isTooLong_of_leads hlast))
  refine ⟨place', hne, isBadPath_of_isEnding ho h.notBad, ?_⟩
  rw [hnames other ho.slash, Path.isAbsolute_append ho.slash]
  exact hall false (name ++ other) place' hp

theorem LeadsTo.ne_longer {more : String} {other : Location} (hm : '/' ∉ more.toList)
    (hlong : 2 < more.length) (h : disk.LeadsTo false path place)
    (h' : disk.LeadsTo false (path ++ more) other) : place ≠ other := by
  have hself : IsEnding "" more := ⟨by simp, by simp, by simp⟩
  obtain ⟨dirs, name, hnames⟩ := Path.exists_names path
  have hnames' := hnames "" hself.slash
  simp only [String.append_empty] at hnames'
  have hleads' := h'.leads
  rw [hnames more hm, Path.isAbsolute_append hm] at hleads'
  obtain ⟨above, left, hlast, hall⟩ := hleads'.exists_directory
  obtain ⟨first, hfirst⟩ := exists_leads disk left above
    (isTooLong_of_isEnding hself (isTooLong_of_leads hlast))
  rw [String.append_empty] at hfirst
  have hleads := h.leads
  rw [hnames'] at hleads
  obtain rfl := hleads.unique (hall false name first hfirst)
  have hlen : ∀ s : String, s.length ≤ 2 → name ++ more ≠ s := by
    intro s hs heq
    have hl := congrArg String.length heq
    rw [String.length_append] at hl
    omega
  rcases hlast.single with ⟨hd | hd, _⟩ | ⟨hd, _⟩ | ⟨_, rfl⟩
  · exact absurd hd (hlen "" (by decide))
  · exact absurd hd (hlen "." (by decide))
  · exact absurd hd (hlen ".." (by decide))
  · rcases hfirst.single with ⟨_, rfl⟩ | ⟨_, rfl⟩ | ⟨_, rfl⟩
    · exact fun heq => by simpa using congrArg List.length heq
    · exact fun heq => by
        have hl := congrArg List.length heq
        rw [List.length_dropLast, List.length_append, List.length_singleton] at hl
        omega
    · intro heq
      have hn := (List.append_inj' heq rfl).2
      have hl := congrArg String.length (List.cons.inj hn).1
      rw [String.length_append] at hl
      omega

/-- Where a path leads, the path without the end of its last name leads to another place. -/
theorem LeadsTo.exists_shorter {more : String} (h : disk.LeadsTo false (path ++ more) place)
    (hm : '/' ∉ more.toList) (hlong : 2 < more.length) (hne : path ≠ "") :
    ∃ here, disk.LeadsTo false path here ∧ here ≠ place := by
  have hself : IsEnding "" more := ⟨by simp, by simp, by simp⟩
  obtain ⟨here, hh⟩ := h.exists_sibling hm hself (by simpa using hne)
  rw [String.append_empty] at hh
  exact ⟨here, hh, hh.ne_longer hm hlong h⟩

/-! ### Single names -/

/-- A path that is one name. -/
structure IsSingle (path : String) : Prop extends IsName path where
  notBad : isBadPath path = false
  names : Path.names path = [path]
  relative : Path.isAbsolute path = false

instance (path : String) : Decidable (IsSingle path) :=
  decidable_of_iff (¬ (path = "" ∨ path = ".") ∧ path ≠ ".." ∧ isTooLong path = false ∧
      isBadPath path = false ∧ Path.names path = [path] ∧ Path.isAbsolute path = false)
    ⟨fun ⟨hh, hu, hf, hb, hn, hr⟩ => ⟨⟨hh, hu, hf⟩, hb, hn, hr⟩,
      fun h => ⟨h.notHere, h.notUp, h.fits, h.notBad, h.names, h.relative⟩⟩

theorem IsSingle.leadsTo (h : IsSingle name) (disk : Disk) :
    disk.LeadsTo false name (disk.working ++ [name]) := by
  refine ⟨fun he => h.notHere (.inl he), h.notBad, ?_⟩
  rw [h.names, h.relative]
  exact .last h.toIsName (fun _ _ => rfl)

theorem IsSingle.resolve (h : IsSingle name) {node : Node}
    (hn : disk.node? (disk.working ++ [name]) = some node) (hl : ∀ target, node ≠ .link target) :
    disk.resolve true name = .ok (disk.working ++ [name], some node) := by
  have hf := (h.leadsTo disk).followed fun target ht =>
    hl target (Option.some.inj (hn.symm.trans ht))
  rw [hf.resolve, hn]

theorem IsSingle.readText? (h : IsSingle name) {number : Nat} {text : String}
    (hn : disk.node? (disk.working ++ [name]) = some (.file number (Text.utf8 text))) :
    disk.readText? name = some text := by
  simp only [Disk.readText?, Disk.read?, Disk.find?, h.resolve hn nofun, Option.bind_some,
    Text.ofUtf8?_utf8]

end Disk
end Countersign
