import Countersign.Proofs.Disk.Ways

/-! The directory of a path. As soon as one name in it has led somewhere it is there, and nothing
that is done to files takes it away. -/

namespace Countersign

namespace Path

theorem splitNames_append (s rest : List Char) :
    names.splitNames (s ++ '/' :: rest) = names.splitNames s ++ names.splitNames rest := by
  induction s with
  | nil => rfl
  | cons c s ih =>
    by_cases hc : c = '/'
    · simp only [List.cons_append, names.splitNames, if_pos hc, ih]
    · obtain ⟨dirs, name, hall⟩ := exists_splitNames s
      have hs : names.splitNames s ≠ [] := by
        have hself := hall [] (by simp)
        rw [List.append_nil, List.append_nil] at hself
        rw [hself]
        simp
      obtain ⟨first, more, hsplit⟩ := List.exists_cons_of_ne_nil hs
      simp only [List.cons_append, names.splitNames, if_neg hc, ih, hsplit]

theorem names_append (above rest : String) :
    names (above ++ "/" ++ rest) = names above ++ names rest := by
  have hslash : "/".toList = ['/'] := by decide
  simp only [names, String.toList_append, hslash, List.append_assoc, List.singleton_append,
    splitNames_append, List.map_append]

theorem names_ne_nil (path : String) : names path ≠ [] := by
  obtain ⟨dirs, name, hall⟩ := exists_names path
  have hself := hall "" (by simp)
  rw [String.append_empty] at hself
  simp [hself]

theorem isAbsolute_of_ne_empty {above : String} (h : above ≠ "") (rest : String) :
    isAbsolute (above ++ rest) = isAbsolute above := by
  have hlist : above.toList ≠ [] := by simpa using h
  obtain ⟨c, more, hc⟩ := List.exists_cons_of_ne_nil hlist
  apply Bool.eq_iff_iff.mpr
  rw [isAbsolute_iff, isAbsolute_iff, String.toList_append, hc, List.cons_append,
    List.head?_cons, List.head?_cons]

/-- What is dropped at the end of a path goes back to a separator, unless nothing is. -/
theorem dropEnd_cases (reversed : List Char) : dropEnd reversed = ['/'] ∨
    (dropEnd reversed = reversed ∧ reversed.head? ≠ some '/') ∨
    ∃ dropped, reversed = dropped ++ '/' :: dropEnd reversed := by
  fun_induction dropEnd reversed with
  | case1 => exact .inl rfl
  | case2 rest _ ih =>
    rcases ih with ih | ⟨ih, _⟩ | ⟨dropped, ih⟩
    · exact .inl ih
    · exact .inr (.inr ⟨[], by rw [ih, List.nil_append]⟩)
    · exact .inr (.inr ⟨'/' :: dropped, by rw [List.cons_append, ← ih]⟩)
  | case3 rest ih =>
    rcases ih with ih | ⟨_, ih⟩ | ⟨dropped, ih⟩
    · exact .inl ih
    · exact absurd rfl ih
    · exact .inr (.inr ⟨'.' :: dropped, by rw [List.cons_append, ← ih]⟩)
  | case4 rest _ hslash _ =>
    refine .inr (.inl ⟨rfl, fun hh => ?_⟩)
    cases rest with
    | nil => exact nomatch hh
    | cons c rest => exact hslash rest (by rw [Option.some.inj hh])

theorem dropEnd_suffix (reversed : List Char) : dropEnd reversed <:+ reversed := by
  fun_induction dropEnd reversed with
  | case1 => exact List.suffix_refl _
  | case2 rest _ ih => exact ih.trans (List.suffix_cons '/' rest)
  | case3 rest ih => exact ih.trans (List.suffix_cons '.' ('/' :: rest))
  | case4 rest => exact List.suffix_refl rest

theorem eq_nil_or_head?_dropWhile (s : List Char) :
    s.dropWhile (· ≠ '/') = [] ∨ (s.dropWhile (· ≠ '/')).head? = some '/' := by
  cases hs : s.dropWhile (· ≠ '/') with
  | nil => exact .inl rfl
  | cons c rest =>
    have hfirst := List.head?_dropWhile_not (· ≠ '/') s
    rw [hs] at hfirst
    exact .inr (by simpa using hfirst)

/-- A parent that is not empty is the root, or stands in the path in front of a separator. -/
theorem of_parent? {path above : String} (h : parent? path = some above) :
    above = "" ∨ above = "/" ∨ ∃ rest, path.toList = above.toList ++ '/' :: rest := by
  unfold parent? at h
  split at h
  · exact nomatch h
  · exact nomatch h
  · obtain ⟨after, hafter⟩ := dropEnd_suffix path.toList.reverse
    generalize dropEnd path.toList.reverse = reversed at h hafter
    obtain ⟨last, hlast⟩ := List.dropWhile_suffix (· ≠ '/')
    have hcut := eq_nil_or_head?_dropWhile reversed
    generalize reversed.dropWhile (· ≠ '/') = cut at h hlast hcut
    obtain rfl := Option.some.inj h
    rcases hcut with rfl | hcut
    · exact .inl rfl
    · right
      rcases dropEnd_cases cut with hd | ⟨_, hd⟩ | ⟨dropped, hd⟩
      · left
        rw [hd]
        decide
      · exact absurd hcut hd
      · right
        refine ⟨dropped.reverse ++ last.reverse ++ after.reverse, ?_⟩
        have hwhole : path.toList.reverse = after ++ (last ++ (dropped ++ '/' :: dropEnd cut)) := by
          rw [← hd, hlast, hafter]
        rw [String.toList_ofList, ← List.reverse_reverse path.toList, hwhole]
        simp

/-- The directory of a path does not change with the end of its last name. -/
theorem of_directory? {path more above : String} (hm : '/' ∉ more.toList)
    (h : directory? (path ++ more) = some above) :
    above ≠ "" ∧ (above = "/" ∨ ∃ rest, path = above ++ "/" ++ rest) := by
  have hne : above ≠ "" := by
    rintro rfl
    unfold directory? at h
    split at h
    · exact nomatch h
    · rename_i hempty
      exact hempty h
  have hp : parent? (path ++ more) = some above := by
    unfold directory? at h
    split at h
    · exact nomatch h
    · exact h
  refine ⟨hne, (of_parent? hp).resolve_left hne |>.imp_right fun ⟨rest, hrest⟩ => ?_⟩
  have hnot : ∀ front, more.toList ≠ front ++ '/' :: rest := by
    intro front heq
    exact hm (by simp [heq])
  rw [String.toList_append, List.append_eq_append_iff] at hrest
  rcases hrest with ⟨front, _, hmore⟩ | ⟨front, hpath, hmore⟩
  · exact absurd hmore (hnot front)
  · cases front with
    | nil => exact absurd hmore.symm (hnot [])
    | cons c front =>
      obtain ⟨rfl, _⟩ := List.cons.inj hmore
      refine ⟨String.ofList front, String.toList_inj.mp ?_⟩
      rw [hpath]
      simp

end Path

namespace Disk

variable {disk other : Disk} {path : String}

theorem IsRooted.exists_here {here : Location} (h : disk.IsRooted here) (links : Nat) :
    ∃ between, disk.Leads true links here [] between ∧ disk.node? between = some .directory :=
  ⟨here, .here links here, h here (List.prefix_refl here)⟩

/-- A way that goes on leads through a directory. -/
theorem Leads.exists_between {follow : Bool} {links : Nat} {here place : Location}
    {front rest : List String} (h : disk.Leads follow links here (front ++ rest) place)
    (hr : rest ≠ []) (hh : disk.IsRooted here) :
    ∃ between, disk.Leads true links here front between ∧
      disk.node? between = some .directory := by
  generalize hall : front ++ rest = names at h
  induction h generalizing front with
  | here links here => exact absurd (List.append_eq_nil_iff.mp hall).2 hr
  | @skip links here place first more hn h ih =>
    cases front with
    | nil => exact hh.exists_here links
    | cons name front =>
      obtain ⟨rfl, hmore⟩ := List.cons.inj hall
      obtain ⟨between, hl, hd⟩ := ih hh hmore
      exact ⟨between, .skip hn hl, hd⟩
  | @up links here place more h ih =>
    cases front with
    | nil => exact hh.exists_here links
    | cons name front =>
      obtain ⟨rfl, hmore⟩ := List.cons.inj hall
      obtain ⟨between, hl, hd⟩ := ih hh.dropLast hmore
      exact ⟨between, .up hl, hd⟩
  | @into links here place first more hn hdir h ih =>
    cases front with
    | nil => exact hh.exists_here links
    | cons name front =>
      obtain ⟨rfl, hmore⟩ := List.cons.inj hall
      obtain ⟨between, hl, hd⟩ := ih (hh.concat hdir) hmore
      exact ⟨between, .into hn hdir hl, hd⟩
  | @along links here place first target more hn hlink _ h ih =>
    cases front with
    | nil => exact hh.exists_here _
    | cons name front =>
      obtain ⟨rfl, hmore⟩ := List.cons.inj hall
      have hnames : (Path.names target ++ front) ++ rest = Path.names target ++ more := by
        rw [List.append_assoc]
        exact congrArg _ hmore
      obtain ⟨between, hl, hd⟩ := ih (hh.linkStart target) hnames
      exact ⟨between, .along hn hlink (.inr rfl) hl, hd⟩
  | @last links here first hn hl =>
    cases front with
    | nil => exact hh.exists_here links
    | cons name front =>
      obtain ⟨_, hmore⟩ := List.cons.inj hall
      exact absurd (List.append_eq_nil_iff.mp hmore).2 hr

/-- There is a directory for the path: an entry beside it, if not its own, could be made there. -/
def HasDirectory (disk : Disk) (path : String) : Prop :=
  ∃ more place, '/' ∉ more.toList ∧ disk.LeadsTo false (path ++ more) place

theorem HasDirectory.of_sameWays (h : disk.HasDirectory path) (hs : disk.SameWays other) :
    other.HasDirectory path := by
  obtain ⟨more, place, hm, hl⟩ := h
  exact ⟨more, place, hm, hs.leadsTo_iff.mpr hl⟩

theorem hasDirectory_of_openFile? {more : String} (hm : '/' ∉ more.toList) {keep : Bool}
    (h : (disk.openFile? keep (path ++ more)).isSome = true) : disk.HasDirectory path := by
  obtain ⟨place, hl, _⟩ := openFile?_isSome_iff.mp h
  obtain ⟨other, ho⟩ := hl.exists_unfollowed
  exact ⟨more, other, hm, ho⟩

theorem hasDirectory_of_at? {node : Node} (h : disk.at? true path = some node) :
    disk.HasDirectory path := by
  obtain ⟨place, hl, _⟩ := exists_of_at? h
  obtain ⟨other, ho⟩ := hl.exists_unfollowed
  exact ⟨"", other, by decide, by rwa [String.append_empty]⟩

theorem at?_root : disk.at? true "/" = some .directory := by
  have hl : disk.LeadsTo true "/" [] := by
    refine ⟨by decide, by decide +kernel, ?_⟩
    rw [show Path.names "/" = ["", ""] by decide +kernel, show Path.isAbsolute "/" = true by rfl]
    exact .skip (.inl rfl) (.skip (.inl rfl) (.here 40 []))
  rw [hl.at?, node?_nil]

theorem at?_working (hw : disk.IsRooted disk.working) : disk.at? true "." = some .directory := by
  have hl : disk.LeadsTo true "." disk.working := by
    refine ⟨by decide, by decide +kernel, ?_⟩
    rw [show Path.names "." = ["."] by decide +kernel, show Path.isAbsolute "." = false by rfl]
    exact .skip (.inr rfl) (.here 40 disk.working)
  rw [hl.at?, hw disk.working (List.prefix_refl _)]

/-- What a path stands in is there, as soon as another name in it has led somewhere. -/
theorem HasDirectory.at?_directory? (h : disk.HasDirectory path)
    (hw : disk.IsRooted disk.working) {more : String} (hm : '/' ∉ more.toList) :
    disk.at? true ((Path.directory? (path ++ more)).getD ".") = some .directory := by
  obtain ⟨more', place, hm', hl⟩ := h
  cases hd : Path.directory? (path ++ more) with
  | none => exact at?_working hw
  | some above =>
    obtain ⟨hne, rfl | ⟨rest, rfl⟩⟩ := Path.of_directory? hm hd
    · exact at?_root
    · have hrest : above ++ "/" ++ rest ++ more' = above ++ "/" ++ (rest ++ more') := by
        rw [String.append_assoc]
      have habsolute : Path.isAbsolute (above ++ "/" ++ (rest ++ more')) =
          Path.isAbsolute above := by
        rw [String.append_assoc, Path.isAbsolute_of_ne_empty hne]
      have hbad : isBadPath above = false := by
        have hb := hl.notBad
        simp only [isBadPath, Bool.or_eq_false_iff, decide_eq_false_iff_not,
          String.utf8ByteSize_append, String.toList_append, List.contains_eq_mem, List.mem_append,
          not_or] at hb ⊢
        exact ⟨by omega, hb.2.1.1.1⟩
      have hleads := hl.leads
      rw [hrest, habsolute, Path.names_append] at hleads
      obtain ⟨between, hb, hnode⟩ :=
        hleads.exists_between (Path.names_ne_nil _) (hw.linkStart above)
      have hto : disk.LeadsTo true above between := ⟨hne, hbad, hb⟩
      rw [Option.getD_some, hto.at?, hnode]

theorem makeDirectories_of_directory (h : disk.at? true path = some .directory) :
    disk.makeDirectories path = (disk, true) := by
  obtain ⟨place, hl, _⟩ := exists_of_at? h
  obtain ⟨other, ho⟩ := hl.exists_unfollowed
  have hthere : disk.node? other ≠ none := by
    intro hn
    rw [at?_of_not_link (by simp [ho.at?, hn]), ho.at?, hn] at h
    exact nomatch h
  obtain ⟨node, hn⟩ := Option.ne_none_iff_exists'.mp hthere
  have hmake : disk.makeDirectory path = .error .unusable := by
    rw [makeDirectory, ho.resolve, hn]
  have hempty : path.isEmpty = false := by simpa using hl.notEmpty
  have hdirectory : disk.isDirectory path = true := by
    rw [isDirectory, find?_eq_at?, h, decide_eq_true rfl]
  simp only [makeDirectories, makeDirectoriesFrom, hempty, hmake, hdirectory, Bool.false_eq_true,
    if_false]

theorem HasDirectory.parents (h : disk.HasDirectory path) (hw : disk.IsRooted disk.working) :
    FileStep.apply path disk .parents = (disk, true) := by
  have hd : disk.at? true ((Path.directory? (path ++ "")).getD ".") = some .directory :=
    h.at?_directory? hw (by decide)
  rw [String.append_empty] at hd
  have hc : disk.contains ((Path.directory? path).getD ".") = true := by
    rw [contains, find?_eq_at?, hd, Option.isSome_some]
  simp only [FileStep.apply, hc, if_true]

end Disk
end Countersign
