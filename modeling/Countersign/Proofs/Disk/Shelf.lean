import Countersign.Proofs.Disk.Joining
import Countersign.Proofs.Disk.Replaceable

/-! Files side by side in one directory. Where nothing but files of their own stand under the names
that are used, replacing one of them succeeds and leaves the others as they were. -/

namespace Countersign.Disk

open FileStep (besidePath)

variable {disk other third : Disk} {place beside : Location} {number : Nat} {content : Bytes}
  {directory name path : String} {here : Location} {names : List String}
  {touched : List Location}

/-! ### Files of their own -/

/-- Every file has a number that has been given out. -/
def IsNumbered (disk : Disk) : Prop :=
  ∀ place number content, disk.node? place = some (.file number content) → number < disk.made

/-- The file stands at that place and at no other. -/
structure OwnFile (disk : Disk) (place : Location) (number : Nat) (content : Bytes) : Prop where
  file : disk.node? place = some (.file number content)
  alone : ∀ other former, disk.node? other = some (.file number former) → other = place

/-- Nothing stands at the place, or a file of its own. -/
def IsOwn (disk : Disk) (place : Location) : Prop :=
  disk.node? place = none ∨ ∃ number content, disk.OwnFile place number content

/-- Files come, go and change at those places only. -/
structure Rewrites (disk other : Disk) (touched : List Location) : Prop where
  ways : disk.SameWays other
  numbered : other.IsNumbered
  own : ∀ place ∈ touched, other.IsOwn place
  elsewhere : ∀ place, place ∉ touched → other.node? place = disk.node? place

theorem IsOwn.ne_directory (h : disk.IsOwn place) : disk.node? place ≠ some .directory := by
  rcases h with hn | ⟨number, content, hf⟩
  · simp [hn]
  · simp [hf.file]

theorem IsOwn.ne_link (h : disk.IsOwn place) (target : String) :
    disk.node? place ≠ some (.link target) := by
  rcases h with hn | ⟨number, content, hf⟩
  · simp [hn]
  · simp [hf.file]

theorem IsOwn.ownFile (h : disk.IsOwn place) (hf : disk.node? place = some (.file number content)) :
    disk.OwnFile place number content := by
  rcases h with hn | ⟨number', content', hown⟩
  · rw [hn] at hf
    exact nomatch hf
  · rw [hown.file] at hf
    cases hf
    exact hown

/-- What is a file of its own elsewhere stays one. -/
theorem IsOwn.of_rewrites (h : disk.IsOwn place) (hr : disk.Rewrites other touched) :
    other.IsOwn place := by
  by_cases hplace : place ∈ touched
  · exact hr.own place hplace
  · have hsame := hr.elsewhere place hplace
    rcases h with hn | ⟨number, content, hf⟩
    · exact .inl (hsame.trans hn)
    · refine .inr ⟨number, content, hsame.trans hf.file, fun twin former htwin => ?_⟩
      by_cases htouched : twin ∈ touched
      · exact (((hr.own twin htouched).ownFile htwin).alone place content
          (hsame.trans hf.file)).symm
      · exact hf.alone twin former ((hr.elsewhere twin htouched).symm.trans htwin)

theorem OwnFile.of_rewrites (h : disk.OwnFile place number content)
    (hr : disk.Rewrites other touched) (hp : place ∉ touched) :
    other.OwnFile place number content :=
  (IsOwn.of_rewrites (.inr ⟨number, content, h⟩) hr).ownFile
    ((hr.elsewhere place hp).trans h.file)

theorem Rewrites.trans (h : disk.Rewrites other touched) (h' : other.Rewrites third touched) :
    disk.Rewrites third touched :=
  ⟨h.ways.trans h'.ways, h'.numbered, h'.own, fun place hp =>
    (h'.elsewhere place hp).trans (h.elsewhere place hp)⟩

theorem Rewrites.mono {more : List Location} (h : disk.Rewrites other touched)
    (ht : touched ⊆ more) (ho : ∀ place ∈ more, disk.IsOwn place) : disk.Rewrites other more :=
  ⟨h.ways, h.numbered, fun place hp => (ho place hp).of_rewrites h,
    fun place hp => h.elsewhere place fun hm => hp (ht hm)⟩

/-! ### Writing -/

theorem OwnFile.changeFile (h : disk.OwnFile place number content) (hn : disk.IsNumbered)
    (change : Bytes → Bytes) :
    (disk.changeFile number change).OwnFile place number (change content) ∧
      disk.Rewrites (disk.changeFile number change) [place] := by
  have hnode := node?_changeFile disk number change
  have hfile : ∀ place' number' content',
      (disk.changeFile number change).node? place' = some (.file number' content') →
        ∃ former, disk.node? place' = some (.file number' former) := by
    intro place' number' content' hf
    rw [hnode] at hf
    obtain ⟨node, hd, hc⟩ := Option.map_eq_some_iff.mp hf
    cases node <;> cases hc
    exact ⟨_, hd⟩
  have hself : (disk.changeFile number change).OwnFile place number (change content) := by
    refine ⟨by rw [hnode, h.file]; simp [changed], fun twin former hf => ?_⟩
    obtain ⟨former', hd⟩ := hfile twin number former hf
    exact h.alone twin former' hd
  refine ⟨hself, sameWays_changeFile disk number change, fun place' number' content' hf => ?_,
    fun place' hp => ?_, fun place' hp => ?_⟩
  · obtain ⟨former, hd⟩ := hfile place' number' content' hf
    exact hn place' number' former hd
  · obtain rfl := List.mem_singleton.mp hp
    exact .inr ⟨number, _, hself⟩
  · have hne : place' ≠ place := fun hh => hp (List.mem_singleton.mpr hh)
    rw [hnode]
    cases hd : disk.node? place' with
    | none => rfl
    | some node =>
      cases node with
      | file number' former =>
        have hother : number' ≠ number := by
          rintro rfl
          exact hne (h.alone place' former hd)
        simp [changed, hother]
      | directory => rfl
      | link target => rfl
      | device => rfl

theorem IsNumbered.addFile (hn : disk.IsNumbered) (h : disk.node? place = none) :
    (disk.addFile place).OwnFile place disk.made [] ∧
      disk.Rewrites (disk.addFile place) [place] := by
  have hself := node?_addFile_self h
  have hown : (disk.addFile place).OwnFile place disk.made [] := by
    refine ⟨hself, fun twin former hf => ?_⟩
    by_contra hne
    rw [node?_addFile_of_ne hne] at hf
    exact Nat.lt_irrefl _ (hn twin _ former hf)
  refine ⟨hown, sameWays_addFile h, fun place' number content hf => ?_, fun place' hp => ?_,
    fun place' hp => node?_addFile_of_ne fun hh => hp (List.mem_singleton.mpr hh)⟩
  · by_cases hp : place' = place
    · subst hp
      rw [hself] at hf
      cases hf
      exact Nat.lt_succ_self disk.made
    · rw [node?_addFile_of_ne hp] at hf
      exact Nat.lt_succ_of_lt (hn place' number content hf)
  · obtain rfl := List.mem_singleton.mp hp
    exact .inr ⟨_, _, hown⟩

theorem IsOwn.openFile? (h : disk.IsOwn place) (hn : disk.IsNumbered)
    (hl : disk.LeadsTo true path place) :
    ∃ number other, disk.openFile? false path = some (.file number, other) ∧
      other.OwnFile place number [] ∧ disk.Rewrites other [place] := by
  rw [Disk.openFile?, hl.resolve]
  rcases h with hnone | ⟨number, content, hf⟩
  · rw [hnone]
    exact ⟨disk.made, disk.addFile place, rfl, hn.addFile hnone⟩
  · rw [hf.file]
    exact ⟨number, _, rfl, hf.changeFile hn fun _ => []⟩

theorem IsOwn.write? (h : disk.IsOwn place) (hn : disk.IsNumbered)
    (hl : disk.LeadsTo true path place) (content : Bytes) :
    ∃ number other, disk.write? path content = some other ∧
      other.OwnFile place number content ∧ disk.Rewrites other [place] := by
  obtain ⟨number, opened, ho, hempty, hopened⟩ := h.openFile? hn hl
  obtain ⟨hfull, hwritten⟩ := hempty.changeFile hopened.numbered (· ++ content)
  refine ⟨number, opened.changeFile number (· ++ content), ?_, hfull, hopened.trans hwritten⟩
  rw [Disk.write?, ho]
  rfl

theorem sameWays_of_own (hw : other.working = disk.working) (hd : ∀ place, ¬ disk.IsOwn place →
    other.node? place = disk.node? place) (ho : ∀ place, ¬ other.IsOwn place →
      other.node? place = disk.node? place) : disk.SameWays other :=
  ⟨⟨hw, fun place hn => (hd place fun hown => hown.ne_directory hn).trans hn,
      fun place target hn => (hd place fun hown => hown.ne_link target hn).trans hn⟩,
    hw.symm, fun place hn => (ho place fun hown => hown.ne_directory hn).symm.trans hn,
      fun place target hn => (ho place fun hown => hown.ne_link target hn).symm.trans hn⟩

theorem OwnFile.rename? (h : disk.OwnFile beside number content) (hn : disk.IsNumbered)
    (hp : disk.IsOwn place) (hne : beside ≠ place) {source target : String}
    (hs : disk.LeadsTo false source beside) (ht : disk.LeadsTo false target place) :
    ∃ other, disk.rename? source target = some other ∧ other.OwnFile place number content ∧
      disk.Rewrites other [place, beside] := by
  have hbeside : beside ≠ [] := by
    rintro rfl
    exact nomatch (node?_nil disk).symm.trans h.file
  have hplace : place ≠ [] := by
    rintro rfl
    exact hp.ne_directory (node?_nil disk)
  have hnode : ∀ place', (disk.moved beside place (.file number content)).node? place' =
      if place' = place then some (.file number content)
      else if place' = beside then none else disk.node? place' :=
    node?_moved hbeside hplace (.file number content)
  have hself : (disk.moved beside place (.file number content)).OwnFile place number content := by
    refine ⟨by rw [hnode, if_pos rfl], fun twin former hf => ?_⟩
    by_contra htwin
    rw [hnode, if_neg htwin] at hf
    split at hf
    · exact nomatch hf
    · rename_i hother
      exact hother (h.alone twin former hf)
  have hgone : (disk.moved beside place (.file number content)).node? beside = none := by
    rw [hnode, if_neg hne, if_pos rfl]
  have helsewhere : ∀ place', place' ∉ [place, beside] →
      (disk.moved beside place (.file number content)).node? place' = disk.node? place' := by
    intro place' hp'
    simp only [List.mem_cons, List.not_mem_nil, or_false, not_or] at hp'
    rw [hnode, if_neg hp'.1, if_neg hp'.2]
  have hown : ∀ place' ∈ [place, beside],
      (disk.moved beside place (.file number content)).IsOwn place' := by
    intro place' hp'
    simp only [List.mem_cons, List.not_mem_nil, or_false] at hp'
    rcases hp' with rfl | rfl
    · exact .inr ⟨number, content, hself⟩
    · exact .inl hgone
  have hbefore : ∀ place' ∈ [place, beside], disk.IsOwn place' := by
    intro place' hp'
    simp only [List.mem_cons, List.not_mem_nil, or_false] at hp'
    rcases hp' with rfl | rfl
    · exact hp
    · exact .inr ⟨number, content, h⟩
  refine ⟨disk.moved beside place (.file number content), ?_, hself,
    sameWays_of_own rfl (fun place' ho => helsewhere place' fun hm => ho (hbefore place' hm))
      fun place' ho => helsewhere place' fun hm => ho (hown place' hm),
    fun place' number' content' hf => ?_, hown, helsewhere⟩
  · rw [Disk.rename?, hs.resolve, h.file, ht.resolve]
    rcases hp with hnone | ⟨_, _, hf⟩
    · simp only [hnone, if_neg hne]
      rfl
    · simp only [hf.file, if_neg hne]
      rfl
  · rw [hnode] at hf
    split at hf
    · cases hf
      exact hn beside number content h.file
    · split at hf
      · exact nomatch hf
      · exact hn place' number' content' hf

/-! ### Entries -/

/-- Another name goes on from the directory that the names lead to. -/
theorem Leads.concat {links : Nat} {start : Location} (h : disk.Leads true links start names here)
    (hd : disk.node? here = some .directory) (hn : IsName name) :
    disk.Leads false links start (names ++ [name]) (here ++ [name]) := by
  induction h with
  | here links here => exact .last hn fun _ _ => rfl
  | skip hskip h ih => exact .skip hskip (ih hd)
  | up h ih => exact .up (ih hd)
  | into hfirst hdirectory h ih => exact .into hfirst hdirectory (ih hd)
  | along hfirst hlink _ h ih =>
    have hrest := ih hd
    rw [List.append_assoc] at hrest
    exact .along hfirst hlink (.inl (by simp)) hrest
  | last hlast _ => exact .into hlast hd (.last hn fun _ _ => rfl)

theorem Leads.of_separator {links : Nat} {start : Location} {follow : Bool}
    (h : disk.Leads follow links start (names ++ [""]) here) (hn : IsName name) :
    disk.Leads false links start (names ++ [name]) (here ++ [name]) := by
  obtain ⟨above, left, hlast, hall⟩ := h.exists_directory
  have hhere := hlast.of_skip (.inl rfl)
  cases hhere
  exact hall false name (here ++ [name]) (.last hn fun _ _ => rfl)

theorem LeadsTo.join (h : disk.LeadsTo true directory here)
    (hd : disk.node? here = some .directory) (hs : '/' ∉ name.toList) (hn : IsName name)
    (hb : isBadPath (Path.join directory name) = false) :
    disk.LeadsTo false (Path.join directory name) (here ++ [name]) := by
  have hnames : Path.names name = [name] := by
    rw [Path.names, Path.splitNames_of_not_mem hs]
    simp
  have hleads := h.leads
  rcases Path.join_cases (Path.isAbsolute_of_not_mem hs) directory with
    ⟨hempty, _⟩ | ⟨above, hj, rfl | ⟨rfl, _⟩⟩
  · exact absurd hempty h.notEmpty
  · refine ⟨by simp [hj], hb, ?_⟩
    have hempty : Path.names "" = [""] := by decide +kernel
    have habove : Path.names (above ++ "/") = Path.names above ++ [""] := by
      rw [← hempty, ← Path.names_append, String.append_empty]
    rw [habove] at hleads
    rw [hj, Path.isAbsolute_of_ne_empty h.notEmpty, Path.names_append, hnames]
    exact hleads.of_separator hn
  · refine ⟨by simp [hj], hb, ?_⟩
    rw [hj, String.append_assoc, Path.isAbsolute_of_ne_empty h.notEmpty, ← String.append_assoc,
      Path.names_append, hnames]
    exact hleads.concat hd hn

/-- A name for an entry of the directory, with room for another one to be written beside it. -/
structure IsEntry (directory name : String) : Prop where
  slash : '/' ∉ name.toList
  long : 2 < name.length
  fits : isTooLong (besidePath name) = false
  notBad : isBadPath (besidePath (Path.join directory name)) = false

theorem isName_of_long (hl : 2 < name.length) (hf : isTooLong name = false) : IsName name := by
  have hne : ∀ short : String, short.length ≤ 2 → name ≠ short := by
    rintro short hs rfl
    omega
  exact ⟨fun h => h.elim (hne "" (by decide)) (hne "." (by decide)), hne ".." (by decide), hf⟩

theorem isEnding_empty_tmp : IsEnding "" ".tmp" := ⟨by decide, by decide, by decide⟩

theorem IsEntry.isName (h : IsEntry directory name) : IsName name := by
  have hfits := isTooLong_of_isEnding isEnding_empty_tmp h.fits
  rw [String.append_empty] at hfits
  exact isName_of_long h.long hfits

theorem IsEntry.isName_beside (h : IsEntry directory name) : IsName (besidePath name) := by
  refine isName_of_long ?_ h.fits
  have hlong := h.long
  rw [besidePath, String.length_append]
  omega

theorem IsEntry.besidePath_join (h : IsEntry directory name) :
    besidePath (Path.join directory name) = Path.join directory (besidePath name) :=
  (Path.join_append (fun hempty => h.isName.notHere (.inl hempty)) ".tmp").symm

/-! ### Shelves -/

/-- A directory in which only files of their own stand under the names, if anything. -/
structure IsShelf (disk : Disk) (directory : String) (here : Location) (names : List String) :
    Prop where
  rooted : disk.IsRooted disk.working
  numbered : disk.IsNumbered
  leads : disk.LeadsTo true directory here
  isDirectory : disk.node? here = some .directory
  own : ∀ name ∈ names, disk.IsOwn (here ++ [name])

namespace IsShelf

theorem of_rewrites (h : disk.IsShelf directory here names) (hr : disk.Rewrites other touched) :
    other.IsShelf directory here names := by
  have hd := hr.ways.forth.directory here h.isDirectory
  exact ⟨hr.ways.forth.isRooted h.rooted, hr.numbered,
    h.leads.of_keepsWays hr.ways.forth fun _ => by simp [hd], hd,
    fun name hn => (h.own name hn).of_rewrites hr⟩

theorem leadsTo (h : disk.IsShelf directory here names) (he : IsEntry directory name) :
    disk.LeadsTo false (Path.join directory name) (here ++ [name]) := by
  refine h.leads.join h.isDirectory he.slash he.isName ?_
  have hbad := isBadPath_of_isEnding isEnding_empty_tmp he.notBad
  rwa [String.append_empty] at hbad

theorem leadsTo_beside (h : disk.IsShelf directory here names) (he : IsEntry directory name) :
    disk.LeadsTo false (besidePath (Path.join directory name)) (here ++ [besidePath name]) := by
  have hslash : '/' ∉ (besidePath name).toList := by
    rw [besidePath, String.toList_append, List.mem_append]
    exact fun hm => hm.elim he.slash slash_not_mem_tmp
  have hbad := he.notBad
  rw [he.besidePath_join] at hbad ⊢
  exact h.leads.join h.isDirectory hslash he.isName_beside hbad

theorem read? (h : disk.IsShelf directory here names) (he : IsEntry directory name)
    (hf : disk.OwnFile (here ++ [name]) number content) :
    disk.read? (Path.join directory name) = some content := by
  have hl := (h.leadsTo he).followed (by simp [hf.file])
  rw [Disk.read?, find?_eq_at?, hl.at?, hf.file]

/-- Replacing a file in the directory succeeds and changes nothing but the file and the one beside
it. -/
theorem replace (h : disk.IsShelf directory here names) (he : IsEntry directory name)
    (hn : name ∈ names) (hb : besidePath name ∈ names) (content : Bytes) :
    ∃ number other, disk.replace (Path.join directory name) content = (other, true) ∧
      other.OwnFile (here ++ [name]) number content ∧
      disk.Rewrites other [here ++ [name], here ++ [besidePath name]] := by
  have hfile := h.own name hn
  have hbeside := h.own (besidePath name) hb
  have hne : here ++ [besidePath name] ≠ here ++ [name] := by
    intro heq
    have hlength := congrArg String.length (List.cons.inj (List.append_inj' heq rfl).2).1
    rw [besidePath, String.length_append, show ".tmp".length = 4 by decide] at hlength
    omega
  have htouched : [here ++ [besidePath name]] ⊆ [here ++ [name], here ++ [besidePath name]] := by
    simp
  have hboth : ∀ place ∈ [here ++ [name], here ++ [besidePath name]], disk.IsOwn place := by
    simp only [List.mem_cons, List.not_mem_nil, or_false, forall_eq_or_imp, forall_eq]
    exact ⟨hfile, hbeside⟩
  have hparents : FileStep.apply (Path.join directory name) disk .parents = (disk, true) :=
    HasDirectory.parents ⟨"", _, by decide, by rw [String.append_empty]; exact h.leadsTo he⟩ h.rooted
  -- the file beside it is made, filled and moved
  obtain ⟨_, made, hmade, hempty, hmaking⟩ := hbeside.openFile? h.numbered
    ((h.leadsTo_beside he).followed hbeside.ne_link)
  have hshelf := h.of_rewrites hmaking
  have hopened := hbeside.of_rewrites hmaking
  obtain ⟨number, written, hwritten, hfull, hwriting⟩ := hopened.write? hmaking.numbered
    ((hshelf.leadsTo_beside he).followed hopened.ne_link) content
  have hshelf' := hshelf.of_rewrites hwriting
  have hbefore := (hmaking.trans hwriting).mono htouched hboth
  obtain ⟨renamed, hrenamed, hown, hrenaming⟩ := hfull.rename? hwriting.numbered
    (hfile.of_rewrites hbefore) hne (hshelf'.leadsTo_beside he) (hshelf'.leadsTo he)
  refine ⟨number, renamed, ?_, hown, hbefore.trans hrenaming⟩
  rw [Disk.replace, replacement, FileStep.run, hparents]
  simp only [FileStep.run, FileStep.apply, hmade, hwritten, hrenamed]

end IsShelf
end Countersign.Disk
