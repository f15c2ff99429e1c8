import Countersign.Proofs.Disk.Joining
import Countersign.Proofs.Disk.Replace

/-! Several texts of one path. Empty names and single dots between the separators lead nowhere, so
that what is written with more or fewer of them is the same file, with the same files beside it. -/

namespace Countersign

open FileStep (besidePath)

namespace Path

/-- The names in front of the last one. -/
def directories (path : String) : List String := (names path).dropLast

def lastName (path : String) : String := (names path).getLast (names_ne_nil path)

/-- Two texts that end in one name and name the same directories in front of it. -/
structure AreSpellings (first second : String) : Prop where
  absolute : isAbsolute first = isAbsolute second
  directories : (directories first).filter isStep = (directories second).filter isStep
  last : lastName first = lastName second

variable {first second base base' : String}

instance (first second : String) : Decidable (AreSpellings first second) :=
  decidable_of_iff (isAbsolute first = isAbsolute second ∧
      (Path.directories first).filter isStep = (Path.directories second).filter isStep ∧
      lastName first = lastName second)
    ⟨fun ⟨ha, hd, hl⟩ => ⟨ha, hd, hl⟩, fun h => ⟨h.absolute, h.directories, h.last⟩⟩

theorem names_eq (path : String) : names path = directories path ++ [lastName path] :=
  (List.dropLast_concat_getLast (names_ne_nil path)).symm

theorem AreSpellings.refl (path : String) : AreSpellings path path := ⟨rfl, rfl, rfl⟩

theorem AreSpellings.symm (h : AreSpellings first second) : AreSpellings second first :=
  ⟨h.absolute.symm, h.directories.symm, h.last.symm⟩

/-- What is added without a separator goes to the last name. -/
theorem names_append_of_not_mem {more : String} (hm : '/' ∉ more.toList) (path : String) :
    names (path ++ more) = directories path ++ [lastName path ++ more] := by
  obtain ⟨dirs, last, hall⟩ := exists_names path
  have hself := hall "" (by simp)
  rw [String.append_empty, String.append_empty, names_eq] at hself
  obtain ⟨hdirs, hlast⟩ := List.append_inj' hself rfl
  rw [hall more hm, hdirs, (List.cons.inj hlast).1]

/-- Under two texts of a directory, what is seen from there is one path. -/
theorem areSpellings_join (habsolute : isAbsolute base = isAbsolute base')
    (hbase : (names base).filter isStep = (names base').filter isStep) (name : String) :
    AreSpellings (join base name) (join base' name) := by
  by_cases hn : isAbsolute name = true
  · simp only [join, hn, Bool.true_or, if_true]
    exact .refl name
  rw [Bool.not_eq_true] at hn
  have hjoin : ∀ base, isAbsolute (join base name) = isAbsolute base ∧
      (directories (join base name)).filter isStep =
        (names base).filter isStep ++ (directories name).filter isStep ∧
      lastName (join base name) = lastName name := by
    intro base
    rcases join_cases hn base with ⟨rfl, hj⟩ | ⟨above, hj, habove⟩
    · rw [hj, hn]
      exact ⟨rfl, rfl, rfl⟩
    · have hnames : names (join base name) = names above ++ directories name ++ [lastName name] := by
        rw [hj, names_append, names_eq name, List.append_assoc]
      rw [names_eq] at hnames
      obtain ⟨hdirs, hlast⟩ := List.append_inj' hnames rfl
      refine ⟨?_, ?_, (List.cons.inj hlast).1⟩
      · rcases habove with rfl | ⟨rfl, hne⟩
        · rw [hj, isAbsolute_of_ne_empty (by simp)]
        · rw [hj, String.append_assoc, isAbsolute_of_ne_empty hne]
      · rw [hdirs, List.filter_append]
        rcases habove with rfl | ⟨rfl, _⟩
        · have hempty : names (above ++ "/" ++ "") = names above ++ names "" := names_append above ""
          rw [String.append_empty] at hempty
          rw [hempty, List.filter_append,
            show (names "").filter isStep = [] by decide +kernel, List.append_nil]
        · rfl
  obtain ⟨ha, hd, hl⟩ := hjoin base
  obtain ⟨ha', hd', hl'⟩ := hjoin base'
  exact ⟨by rw [ha, ha', habsolute], by rw [hd, hd', hbase], hl.trans hl'.symm⟩

end Path

namespace Disk

variable {disk other : Disk} {follow : Bool} {links : Nat} {here place : Location}
  {rest : List String}

/-! ### Ways -/

theorem IsName.isStep {name : String} (h : IsName name) : Path.isStep name = true :=
  decide_eq_true (not_or.mp h.notHere)

theorem Leads.of_idle {idle : List String} (hi : ∀ name ∈ idle, ¬ Path.isStep name = true)
    (h : disk.Leads follow links here rest place) :
    disk.Leads follow links here (idle ++ rest) place := by
  induction idle with
  | nil => exact h
  | cons name idle ih =>
    have hname : name = "" ∨ name = "." := by
      have hidle := hi name List.mem_cons_self
      simp only [Path.isStep, decide_eq_true_eq, not_and_or, not_not] at hidle
      exact hidle
    exact .skip hname (ih fun other hm => hi other (List.mem_cons_of_mem name hm))

/-- A way depends on its last name and on those of the others that count. -/
theorem Leads.of_filter {dirs dirs' : List String} {last : String}
    (h : disk.Leads follow links here (dirs ++ [last]) place)
    (hs : dirs'.filter Path.isStep = dirs.filter Path.isStep) :
    disk.Leads follow links here (dirs' ++ [last]) place := by
  -- a link puts the names of its target in front of what is left
  generalize hall : dirs ++ [last] = names at h
  induction h generalizing dirs dirs' with
  | here => simp at hall
  | @skip links here place name rest hn h ih =>
    cases dirs with
    | nil =>
      obtain ⟨rfl, rfl⟩ := List.cons.inj hall
      exact .of_idle (List.filter_eq_nil_iff.mp hs) (.skip hn h)
    | cons dir dirs =>
      obtain ⟨rfl, hrest⟩ := List.cons.inj hall
      have hidle : ¬ Path.isStep dir = true := by
        rcases hn with rfl | rfl <;> decide
      exact ih (hs.trans (List.filter_cons_of_neg hidle)) hrest
  | @up links here place rest h ih =>
    cases dirs with
    | nil =>
      obtain ⟨rfl, rfl⟩ := List.cons.inj hall
      exact .of_idle (List.filter_eq_nil_iff.mp hs) (.up h)
    | cons dir dirs =>
      obtain ⟨rfl, hrest⟩ := List.cons.inj hall
      rw [List.filter_cons_of_pos (by decide)] at hs
      obtain ⟨idle, more, rfl, hidle, _, hmore⟩ := List.filter_eq_cons_iff.mp hs
      rw [List.append_assoc]
      exact .of_idle hidle (.up (ih hmore hrest))
  | @into links here place name rest hn hd h ih =>
    cases dirs with
    | nil =>
      obtain ⟨rfl, rfl⟩ := List.cons.inj hall
      exact .of_idle (List.filter_eq_nil_iff.mp hs) (.into hn hd h)
    | cons dir dirs =>
      obtain ⟨rfl, hrest⟩ := List.cons.inj hall
      rw [List.filter_cons_of_pos hn.isStep] at hs
      obtain ⟨idle, more, rfl, hidle, _, hmore⟩ := List.filter_eq_cons_iff.mp hs
      rw [List.append_assoc]
      exact .of_idle hidle (.into hn hd (ih hmore hrest))
  | @along links here place name target rest hn hl hr h ih =>
    cases dirs with
    | nil =>
      obtain ⟨rfl, rfl⟩ := List.cons.inj hall
      exact .of_idle (List.filter_eq_nil_iff.mp hs) (.along hn hl hr h)
    | cons dir dirs =>
      obtain ⟨rfl, hrest⟩ := List.cons.inj hall
      rw [List.filter_cons_of_pos hn.isStep] at hs
      obtain ⟨idle, more, rfl, hidle, _, hmore⟩ := List.filter_eq_cons_iff.mp hs
      have hgo : disk.Leads follow links (if Path.isAbsolute target then [] else here)
          ((Path.names target ++ more) ++ [last]) place := by
        refine @ih (Path.names target ++ dirs) _ ?_ ?_
        · rw [List.filter_append, List.filter_append, hmore]
        · rw [List.append_assoc, ← hrest]
          rfl
      rw [List.append_assoc] at hgo ⊢
      exact .of_idle hidle (.along hn hl (.inl (by simp)) hgo)
  | @last links here name hn hl =>
    cases dirs with
    | nil =>
      obtain ⟨rfl, _⟩ := List.cons.inj hall
      exact .of_idle (List.filter_eq_nil_iff.mp hs) (.last hn hl)
    | cons dir dirs =>
      obtain ⟨_, hrest⟩ := List.cons.inj hall
      simp at hrest

/-! ### Whole paths -/

/-- In every tree the two texts lead to the same places, and so do those of the files that are
written beside what they lead to. -/
def LeadAlike (first second : String) : Prop :=
  ∀ more ∈ ["", ".tmp", ".lock"], ∀ (disk : Disk) follow place,
    disk.LeadsTo follow (first ++ more) place ↔ disk.LeadsTo follow (second ++ more) place

variable {first second : String}

theorem leadsTo_of_areSpellings (h : Path.AreSpellings first second) {more : String}
    (hm : '/' ∉ more.toList) (hne : second ++ more ≠ "") (hb : isBadPath (second ++ more) = false)
    (hl : disk.LeadsTo follow (first ++ more) place) :
    disk.LeadsTo follow (second ++ more) place := by
  have hleads := hl.leads
  rw [Path.isAbsolute_append hm, Path.names_append_of_not_mem hm] at hleads
  refine ⟨hne, hb, ?_⟩
  rw [Path.isAbsolute_append hm, Path.names_append_of_not_mem hm, ← h.absolute, ← h.last]
  exact hleads.of_filter h.directories.symm

/-- Spellings of one path lead alike, as long as none of them is too long for a path. -/
theorem leadAlike_of_areSpellings (h : Path.AreSpellings first second) (hfirst : first ≠ "")
    (hsecond : second ≠ "") (hb : isBadPath (first ++ ".lock") = false)
    (hb' : isBadPath (second ++ ".lock") = false) : LeadAlike first second := by
  intro more hmore disk follow place
  have hend : IsEnding more ".lock" := by
    simp only [List.mem_cons, List.not_mem_nil, or_false] at hmore
    rcases hmore with rfl | rfl | rfl <;> exact ⟨by decide, by decide, by decide⟩
  exact ⟨leadsTo_of_areSpellings h hend.slash (by simp [hsecond]) (isBadPath_of_isEnding hend hb'),
    leadsTo_of_areSpellings h.symm hend.slash (by simp [hfirst]) (isBadPath_of_isEnding hend hb)⟩

namespace LeadAlike

theorem refl (path : String) : LeadAlike path path := fun _ _ _ _ _ => Iff.rfl

theorem symm (h : LeadAlike first second) : LeadAlike second first :=
  fun more hm disk follow place => (h more hm disk follow place).symm

variable (h : LeadAlike first second)

include h

theorem at?_append {more : String} (hm : more ∈ ["", ".tmp", ".lock"]) (disk : Disk)
    (follow : Bool) : disk.at? follow (first ++ more) = disk.at? follow (second ++ more) := by
  refine Option.ext fun node => ⟨fun ha => ?_, fun ha => ?_⟩
  · obtain ⟨place, hl, hn⟩ := exists_of_at? ha
    rw [((h more hm disk follow place).mp hl).at?, hn]
  · obtain ⟨place, hl, hn⟩ := exists_of_at? ha
    rw [((h more hm disk follow place).mpr hl).at?, hn]

theorem leadsTo_iff : disk.LeadsTo follow first place ↔ disk.LeadsTo follow second place := by
  have hown := h "" List.mem_cons_self disk follow place
  rwa [String.append_empty, String.append_empty] at hown

theorem at? (disk : Disk) (follow : Bool) : disk.at? follow first = disk.at? follow second := by
  have hown := h.at?_append List.mem_cons_self disk follow
  rwa [String.append_empty, String.append_empty] at hown

theorem at?_beside (disk : Disk) (follow : Bool) :
    disk.at? follow (besidePath first) = disk.at? follow (besidePath second) :=
  h.at?_append (by simp) disk follow

theorem readText? (disk : Disk) : disk.readText? first = disk.readText? second := by
  simp only [Disk.readText?, Disk.read?, find?_eq_at?, h.at?]

/-- Whoever goes for the lock opens one file, whichever text he knows. -/
theorem openLock (disk : Disk) (keep : Bool) :
    disk.openFile? keep (first ++ ".lock") = disk.openFile? keep (second ++ ".lock") := by
  have hall := h ".lock" (by simp) disk true
  unfold Disk.openFile?
  cases hr : disk.resolve true (first ++ ".lock") with
  | ok found =>
    obtain ⟨place, node⟩ := found
    obtain ⟨hl, rfl⟩ := resolve_eq_ok_iff.mp hr
    rw [((hall place).mp hl).resolve]
  | error fault =>
    cases hr' : disk.resolve true (second ++ ".lock") with
    | ok found =>
      obtain ⟨place, node⟩ := found
      obtain ⟨hl, _⟩ := resolve_eq_ok_iff.mp hr'
      rw [((hall place).mpr hl).resolve] at hr
      exact nomatch hr
    | error fault' => rfl

/-! ### Files under another text -/

theorem houses (hh : disk.Houses first) : disk.Houses second where
  file := by
    have hfile := hh.file
    simp only [IsPlain, IsVacant, h.at?] at hfile
    exact hfile
  beside := by
    have hbeside := hh.beside
    simp only [IsPlain, IsVacant, h.at?_beside] at hbeside
    exact hbeside
  apart := by
    have hapart := hh.apart
    simp only [h.at?, h.at?_beside] at hapart
    exact hapart
  rooted := hh.rooted

theorem leavesAlone (hl : disk.LeavesAlone other first) : disk.LeavesAlone other second := by
  obtain ⟨hhouses, hmade, hfile, hdirectory, hvacant, hbeside⟩ := hl
  simp only [h.at?, h.at?_beside] at hfile hdirectory hvacant hbeside
  exact ⟨h.houses hhouses, hmade, hfile, hdirectory, hvacant, hbeside⟩

theorem replaces {content : Bytes} (hr : disk.Replaces other first content) :
    disk.Replaces other second content := by
  obtain ⟨hhouses, hmade, hdirectory, hbeside, hfile⟩ := hr
  simp only [h.at?, h.at?_beside] at hdirectory hbeside hfile
  exact ⟨h.houses hhouses, hmade, hdirectory, hbeside, hfile⟩

end LeadAlike

end Disk
end Countersign
