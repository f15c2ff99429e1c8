import Countersign.Proofs.Disk.Shelf
import Countersign.Proofs.Envelope.Inbox
import Countersign.Proofs.Envelope.Naming
import Countersign.Proofs.Setup.Admission

/-! Envelopes that are written to one directory. They are kept apart by the slugs of their guardians:
under different slugs both are found again, and under one the later takes the place of the earlier. -/

namespace Countersign.Envelope

open FileStep (besidePath)

namespace Naming

/-- The name of the file with that ending. -/
def file (n : Naming) (ending : String) : String := baseName n.digest n.guardianId ++ ending

/-- The endings of an envelope's files and of those beside them. -/
def endings : List String := [".cbor", ".cbor.tmp", ".json", ".json.tmp"]

def files (n : Naming) : List String := endings.map n.file

/-- The names are short enough, and the digest leads to no other directory. -/
structure Fits (n : Naming) : Prop where
  slash : '/' ∉ leading n.digest
  notLong : Disk.isTooLong (n.file ".cbor.tmp") = false
  notBad : Disk.isBadPath (Path.join n.directory (n.file ".cbor.tmp")) = false

variable {n : Naming} {ending : String}

theorem besidePath_file (n : Naming) (ending : String) :
    besidePath (n.file ending) = n.file (ending ++ ".tmp") :=
  String.append_assoc

theorem isEntry_file (h : n.Fits) (he : IsFileEnding ending)
    (hr : Disk.IsEnding (ending ++ ".tmp") ".cbor.tmp") :
    Disk.IsEntry n.directory (n.file ending) := by
  have hslash : '/' ∉ (baseName n.digest n.guardianId).toList := by
    rw [baseName_eq, String.toList_ofList]
    exact slash_not_mem_baseName h.slash n.guardianId
  have hlong := he.long
  have hne : baseName n.digest n.guardianId ≠ "" := by
    rw [baseName_eq]
    exact fun hh => by simpa using congrArg String.toList hh
  have hjoin : ∀ more, Path.join n.directory (baseName n.digest n.guardianId ++ more) =
      Path.join n.directory (baseName n.digest n.guardianId) ++ more := Path.join_append hne
  have hbad := h.notBad
  refine ⟨?_, ?_, ?_, ?_⟩
  · rw [file, String.toList_append, List.mem_append]
    exact fun hm => hm.elim hslash he.slash
  · rw [file, String.length_append, ← String.length_toList (s := ending)]
    omega
  · rw [besidePath_file]
    exact Disk.isTooLong_of_isEnding hr h.notLong
  · rw [file, hjoin] at hbad
    rw [file, hjoin, besidePath, String.append_assoc]
    exact Disk.isBadPath_of_isEnding hr hbad

theorem isEntry_cbor (h : n.Fits) : Disk.IsEntry n.directory (n.file ".cbor") :=
  isEntry_file h isFileEnding_cbor ⟨by decide, by decide, by decide⟩

theorem isEntry_json (h : n.Fits) : Disk.IsEntry n.directory (n.file ".json") :=
  isEntry_file h isFileEnding_json ⟨by decide, by decide, by decide⟩

theorem binaryPath_eq (h : n.name.bind Text.stated? = none) :
    n.plan.binaryPath = Path.join n.directory (n.file ".cbor") := by
  rw [binaryPath_plan h, file]

theorem textualPath_eq (h : n.name.bind Text.stated? = none) : n.plan.textualPath =
    if n.textual then some (Path.join n.directory (n.file ".json")) else none := by
  rw [textualPath_plan h, file]

theorem file_eq (n : Naming) (ending : String) : n.file ending =
    String.ofList (leading n.digest ++ ['-']) ++ (String.ofList (slug n.guardianId) ++ ending) := by
  rw [file, baseName_eq, ← String.append_assoc, ← String.ofList_append, List.append_assoc,
    List.singleton_append]

/-- Where a character stands first, the lists are cut alike. -/
theorem append_cons_inj {c : Char} {front other : List Char} (hf : c ∉ front) (ho : c ∉ other)
    {back rest : List Char} :
    front ++ c :: back = other ++ c :: rest ↔ front = other ∧ back = rest := by
  have htake : ∀ s : List Char, c ∉ s → ∀ t, (s ++ c :: t).takeWhile (· ≠ c) = s := by
    intro s hs t
    have hall : ∀ d ∈ s, decide (d ≠ c) = true := fun d hd =>
      decide_eq_true fun hh : d = c => hs (hh ▸ hd)
    rw [List.takeWhile_append_of_pos hall, List.takeWhile_cons_of_neg (by simp), List.append_nil]
  constructor
  · intro h
    have hfront := congrArg (List.takeWhile (· ≠ c)) h
    rw [htake front hf, htake other ho] at hfront
    subst hfront
    exact ⟨rfl, (List.cons.inj (List.append_cancel_left h)).2⟩
  · rintro ⟨rfl, rfl⟩
    rfl

/-- Names for one digest are told apart by the slugs and the endings. -/
theorem file_eq_file_iff {m : Naming} {other : String} (hd : n.digest = m.digest)
    (he : ending.toList.head? = some '.') (ho : other.toList.head? = some '.') :
    n.file ending = m.file other ↔ slug n.guardianId = slug m.guardianId ∧ ending = other := by
  have hdot : ∀ guardianId : Option String, '.' ∉ slug guardianId := fun _ hm =>
    (isPlain_cases (isPlain_of_mem_slug hm)).2.2.2 rfl
  obtain ⟨more, hmore⟩ := List.head?_eq_some_iff.mp he
  obtain ⟨rest, hrest⟩ := List.head?_eq_some_iff.mp ho
  have hending : ending.toList = other.toList ↔ ending = other := String.toList_inj
  rw [file_eq, file_eq, hd, ← String.toList_inj, ← hending]
  simp only [String.toList_append, String.toList_ofList, hmore, hrest]
  rw [List.append_cancel_left_eq, append_cons_inj (hdot _) (hdot _), List.cons.injEq,
    eq_self, true_and]

theorem isAbsolute_file (n : Naming) (ending : String) : Path.isAbsolute (n.file ending) =
    Path.isAbsolute (String.ofList (leading n.digest ++ ['-'])) := by
  rw [file_eq]
  exact Path.isAbsolute_of_ne_empty (by simp) _

theorem file_inj {other : String} : n.file ending = n.file other ↔ ending = other := by
  rw [file, file, ← String.toList_inj, String.toList_append, String.toList_append,
    List.append_cancel_left_eq, String.toList_inj]

end Naming

/-! ### Writing to a shelf -/

section
variable {e : Envelope} {plan : Plan} {disk between after : Disk} {path : String}

theorem write_eq (hb : disk.replace plan.binaryPath e.encodeBinary = (between, true)) :
    e.write plan disk =
      match plan.textualPath with
      | none => (between, none)
      | some path =>
        match between.replace path e.encodeTextual with
        | (disk, false) => (disk, some path)
        | (disk, true) => (disk, none) := by
  unfold write
  split
  · rename_i heq
    exact nomatch hb.symm.trans heq
  · rename_i heq
    cases hb.symm.trans heq
    rfl

theorem write_binary (hb : disk.replace plan.binaryPath e.encodeBinary = (between, true))
    (hp : plan.textualPath = none) : e.write plan disk = (between, none) := by
  rw [write_eq hb, hp]

theorem write_both (hb : disk.replace plan.binaryPath e.encodeBinary = (between, true))
    (hp : plan.textualPath = some path)
    (ht : between.replace path e.encodeTextual = (after, true)) :
    e.write plan disk = (after, none) := by
  rw [write_eq hb, hp]
  simp only [ht]

end

/-- The envelope stands in its files, in the directory that leads here. -/
structure Naming.Stands (n : Naming) (disk : Disk) (here : Location) (e : Envelope) : Prop where
  binary : ∃ number, disk.OwnFile (here ++ [n.file ".cbor"]) number e.encodeBinary
  textual : n.textual = true →
    ∃ number, disk.OwnFile (here ++ [n.file ".json"]) number e.encodeTextual

section
variable {disk : Disk} {here : Location} {names : List String} {n : Naming}

theorem subset_places {here : Location} {first second : String} (h : first ∈ names)
    (h' : second ∈ names) : [here ++ [first], here ++ [second]] ⊆ names.map (here ++ [·]) := by
  simp [h, h']

/-- An envelope is written to its files whole, and nothing else changes. -/
theorem write_to_shelf (hs : disk.IsShelf n.directory here names) (hsub : n.files ⊆ names)
    (hf : n.Fits) (hn : n.name.bind Text.stated? = none) (e : Envelope) :
    ∃ other, e.write n.plan disk = (other, none) ∧
      disk.Rewrites other (n.files.map (here ++ [·])) ∧ n.Stands other here e := by
  have hfiles : ∀ ending ∈ Naming.endings, n.file ending ∈ n.files :=
    fun ending he => List.mem_map_of_mem he
  have hcbor : besidePath (n.file ".cbor") ∈ n.files := by
    rw [Naming.besidePath_file]
    exact hfiles (".cbor" ++ ".tmp") (by decide)
  have hjson : besidePath (n.file ".json") ∈ n.files := by
    rw [Naming.besidePath_file]
    exact hfiles (".json" ++ ".tmp") (by decide)
  have hown : ∀ place ∈ n.files.map (here ++ [·]), disk.IsOwn place := by
    intro place hp
    obtain ⟨name, hname, rfl⟩ := List.mem_map.mp hp
    exact hs.own name (hsub hname)
  obtain ⟨number, between, hbinary, hfirst, hrewrites⟩ := hs.replace (Naming.isEntry_cbor hf)
    (hsub (hfiles ".cbor" (by decide))) (hsub hcbor) e.encodeBinary
  have hbetween := hrewrites.mono
    (subset_places (hfiles ".cbor" (by decide)) hcbor) hown
  have hbinary' : disk.replace n.plan.binaryPath e.encodeBinary = (between, true) := by
    rw [Naming.binaryPath_eq hn]
    exact hbinary
  have htextual := Naming.textualPath_eq hn
  cases ht : n.textual with
  | false =>
    rw [ht] at htextual
    exact ⟨between, write_binary hbinary' htextual, hbetween, ⟨number, hfirst⟩,
      fun hyes => nomatch ht.symm.trans hyes⟩
  | true =>
    rw [ht] at htextual
    have hshelf := hs.of_rewrites hrewrites
    obtain ⟨number', other, hreplaced, hsecond, hrewrites'⟩ := hshelf.replace
      (Naming.isEntry_json hf) (hsub (hfiles ".json" (by decide))) (hsub hjson) e.encodeTextual
    have hother := hrewrites'.mono (subset_places (hfiles ".json" (by decide)) hjson)
      fun place hp => (hown place hp).of_rewrites hbetween
    have hkept : here ++ [n.file ".cbor"] ∉
        [here ++ [n.file ".json"], here ++ [besidePath (n.file ".json")]] := by
      simp [Naming.besidePath_file, Naming.file_inj]
    have hwrite : e.write n.plan disk = (other, none) :=
      write_both hbinary' htextual hreplaced
    exact ⟨other, hwrite, hbetween.trans hother, ⟨number, hfirst.of_rewrites hrewrites' hkept⟩,
      fun _ => ⟨number', hsecond⟩⟩

end

/-- The files of the plan hold the envelope. -/
structure Plan.Holds (plan : Plan) (disk : Disk) (e : Envelope) : Prop where
  binary : disk.read? plan.binaryPath = some e.encodeBinary
  textual : ∀ path, plan.textualPath = some path → disk.read? path = some e.encodeTextual

section
variable {disk other : Disk} {here : Location} {names : List String} {n : Naming} {e : Envelope}

theorem Naming.Stands.holds (h : n.Stands disk here e)
    (hs : disk.IsShelf n.directory here names) (hf : n.Fits)
    (hn : n.name.bind Text.stated? = none) : n.plan.Holds disk e := by
  constructor
  · obtain ⟨number, hown⟩ := h.binary
    rw [Naming.binaryPath_eq hn]
    exact hs.read? (Naming.isEntry_cbor hf) hown
  · intro path hp
    rw [Naming.textualPath_eq hn] at hp
    split at hp
    · rename_i ht
      obtain ⟨number, hown⟩ := h.textual ht
      rw [← Option.some.inj hp]
      exact hs.read? (Naming.isEntry_json hf) hown
    · exact nomatch hp

theorem Naming.Stands.of_rewrites (h : n.Stands disk here e) {touched : List String}
    (hr : disk.Rewrites other (touched.map (here ++ [·])))
    (hd : ∀ name ∈ n.files, name ∉ touched) : n.Stands other here e := by
  have hkept : ∀ ending ∈ Naming.endings, here ++ [n.file ending] ∉ touched.map (here ++ [·]) := by
    intro ending he hm
    obtain ⟨name, hname, heq⟩ := List.mem_map.mp hm
    have hsame : name = n.file ending := (List.cons.inj (List.append_cancel_left heq)).1
    exact hd (n.file ending) (List.mem_map_of_mem he) (hsame ▸ hname)
  constructor
  · obtain ⟨number, hown⟩ := h.binary
    exact ⟨number, hown.of_rewrites hr (hkept ".cbor" (by decide))⟩
  · intro ht
    obtain ⟨number, hown⟩ := h.textual ht
    exact ⟨number, hown.of_rewrites hr (hkept ".json" (by decide))⟩

theorem Naming.Stands.exists_load? (h : n.Stands disk here e)
    (hs : disk.IsShelf n.directory here names) (he : e.IsStorable) :
    ∃ inbox, Inbox.load? disk n.directory = some inbox ∧ e ∈ inbox.envelopes := by
  obtain ⟨number, hown⟩ := h.binary
  have hresolve : disk.resolve true n.directory = .ok (here, some .directory) := by
    rw [hs.leads.resolve, hs.isDirectory]
  have hdecode : Format.cbor.decode e.encodeBinary = .ok e := decodeBinary_encodeBinary he
  exact Inbox.exists_load?_mem hresolve hown.file hdecode

end

/-! ### Two guardians -/

namespace Naming

/-- The naming of a guardian's own envelope. -/
def forGuardian (n : Naming) (g : Guardian) : Naming := { n with guardianId := some g.id }

variable {n : Naming} {g other : Guardian}

theorem head?_of_mem_endings : ∀ ending ∈ endings, ending.toList.head? = some '.' := by decide

theorem files_disjoint (h : slug (some g.id) ≠ slug (some other.id)) :
    ∀ name ∈ (n.forGuardian g).files, name ∉ (n.forGuardian other).files := by
  intro name hg ho
  obtain ⟨ending, he, rfl⟩ := List.mem_map.mp hg
  obtain ⟨ending', he', hsame⟩ := List.mem_map.mp ho
  have hslug := (file_eq_file_iff (n := n.forGuardian other) (m := n.forGuardian g) rfl
    (head?_of_mem_endings ending' he') (head?_of_mem_endings ending he)).mp hsame
  exact h hslug.1.symm

theorem join_file_ne_iff {ending : String} (he : ending.toList.head? = some '.') :
    Path.join n.directory ((n.forGuardian g).file ending) ≠
        Path.join n.directory ((n.forGuardian other).file ending) ↔
      slug (some g.id) ≠ slug (some other.id) := by
  have habsolute : Path.isAbsolute ((n.forGuardian g).file ending) =
      Path.isAbsolute ((n.forGuardian other).file ending) := by
    rw [isAbsolute_file, isAbsolute_file]
    rfl
  have hfile := file_eq_file_iff (n := n.forGuardian g) (m := n.forGuardian other) rfl he he
  rw [Ne, Path.join_inj habsolute, hfile, and_iff_left rfl]
  rfl

theorem forGuardian_plan (h : slug (some g.id) = slug (some other.id)) :
    (n.forGuardian g).plan = (n.forGuardian other).plan := by
  have hname : baseName n.digest (some g.id) = baseName n.digest (some other.id) := by
    rw [baseName_eq, baseName_eq, h]
  rw [plan, plan]
  simp only [forGuardian, hname]
  rfl

/-- Two guardians who take part write their envelopes for one digest to different files if and only if
they have different slugs, whatever the directory and the digest; so they do if their names are
plain. In a directory where nothing is in the way both are then found again, and under one slug the
envelope that is written later is all that is left. -/
theorem envelopes_are_kept_apart_by_slugs {guardians : List Guardian} {roster : Roster}
    (h : Roster.ofGuardians guardians = .ok roster) (hg : g ∈ roster.guardians)
    (ho : other ∈ roster.guardians) (hne : g ≠ other) (hn : n.name.bind Text.stated? = none) :
    ((n.forGuardian g).plan.binaryPath ≠ (n.forGuardian other).plan.binaryPath ↔
      slug (some g.id) ≠ slug (some other.id)) ∧
    (n.textual = true →
      ((n.forGuardian g).plan.textualPath ≠ (n.forGuardian other).plan.textualPath ↔
        slug (some g.id) ≠ slug (some other.id))) ∧
    slug (some g.id) = (Text.trim g.id.toList).flatMap slugLetters ∧
    ((∀ c ∈ g.id.toList ++ other.id.toList, isPlain c = true) →
      slug (some g.id) ≠ slug (some other.id)) ∧
    ∀ disk here, disk.IsShelf n.directory here
        ((n.forGuardian g).files ++ (n.forGuardian other).files) →
      (n.forGuardian g).Fits → (n.forGuardian other).Fits → ∀ e f : Envelope,
        ∃ between after, e.write (n.forGuardian g).plan disk = (between, none) ∧
          f.write (n.forGuardian other).plan between = (after, none) ∧
          (n.forGuardian other).plan.Holds after f ∧
          (slug (some g.id) ≠ slug (some other.id) →
            (n.forGuardian g).plan.Holds after e ∧
            (e.IsStorable → f.IsStorable → ∃ inbox,
              Inbox.load? after n.directory = some inbox ∧
                e ∈ inbox.envelopes ∧ f ∈ inbox.envelopes)) ∧
          (slug (some g.id) = slug (some other.id) → (n.forGuardian g).plan.Holds after f) := by
  obtain ⟨hindexed, _, hcomplete⟩ := Roster.ofGuardians_eq_ok h
  have hbinary := binaryPath_eq (n := n.forGuardian g) hn
  have hbinary' := binaryPath_eq (n := n.forGuardian other) hn
  have htextual := textualPath_eq (n := n.forGuardian g) hn
  have htextual' := textualPath_eq (n := n.forGuardian other) hn
  refine ⟨?_, fun ht => ?_, slug_eq (hcomplete g hg).id, fun hplain => ?_,
    fun disk here hs hfits hfits' e f => ?_⟩
  · rw [hbinary, hbinary']
    exact join_file_ne_iff (by decide)
  · have hg : (n.forGuardian g).textual = true := ht
    have ho : (n.forGuardian other).textual = true := ht
    rw [htextual, htextual', if_pos hg, if_pos ho, Ne, Option.some.injEq]
    exact join_file_ne_iff (by decide)
  · have hname : ∀ x ∈ roster.guardians, x.id ≠ "" := by
      intro x hx hid
      exact (hcomplete x hx).id (by rw [hid]; decide)
    rw [slug_of_isPlain (fun c hc => hplain c (List.mem_append_left _ hc)) (hname g hg),
      slug_of_isPlain (fun c hc => hplain c (List.mem_append_right _ hc)) (hname other ho), Ne,
      String.toList_inj]
    exact fun hid => hne (hindexed.eq_of_id hg ho hid)
  · obtain ⟨between, hwrite, hrewrites, hfirst⟩ :=
      write_to_shelf (n := n.forGuardian g) hs (List.subset_append_left _ _) hfits hn e
    have hs' := hs.of_rewrites hrewrites
    obtain ⟨after, hwrite', hrewrites', hsecond⟩ :=
      write_to_shelf (n := n.forGuardian other) hs' (List.subset_append_right _ _) hfits' hn f
    have hs'' := hs'.of_rewrites hrewrites'
    have hholds : (n.forGuardian other).plan.Holds after f := hsecond.holds hs'' hfits' hn
    refine ⟨between, after, hwrite, hwrite', hholds, fun hslug => ?_, fun hslug => ?_⟩
    · have hkept := hfirst.of_rewrites hrewrites' (files_disjoint hslug)
      refine ⟨hkept.holds hs'' hfits hn, fun he hf => ?_⟩
      obtain ⟨inbox, hload, hmem⟩ := hkept.exists_load? hs'' he
      obtain ⟨inbox', hload', hmem'⟩ := hsecond.exists_load? hs'' hf
      cases hload.symm.trans hload'
      exact ⟨inbox, hload, hmem, hmem'⟩
    · rw [forGuardian_plan hslug]
      exact hholds

def calm : Guardian := ⟨"ops-team", [1], 2, none, false⟩

def loud : Guardian := ⟨"Ops Team", [2], 2, none, false⟩

def dora : Guardian := ⟨"dora", [3], 2, none, false⟩

def teams : Roster where
  guardians := [calm, loud, dora]
  idIndex := [("dora", 2), ("Ops Team", 1), ("ops-team", 0)]
  keyIndex := [([3], 2), ([2], 1), ([1], 0)]

theorem ofGuardians_teams : Roster.ofGuardians [calm, loud, dora] = .ok teams := by
  have hcalm : (Text.trim calm.id.toList).isEmpty = false := by decide
  have hloud : (Text.trim loud.id.toList).isEmpty = false := by decide
  have hdora : (Text.trim dora.id.toList).isEmpty = false := by decide
  simp only [Roster.ofGuardians, Guardian.checkAll, Guardian.check, hcalm, hloud, hdora]
  rfl

/-- A directory with nothing in it. -/
def bareShelf : Disk := ⟨[(["env"], .directory)], [], 0⟩

theorem isShelf_bareShelf (names : List String) : bareShelf.IsShelf "env" ["env"] names := by
  have hsingle : Disk.IsSingle "env" := by decide
  have hdirectory : bareShelf.node? ["env"] = some .directory := rfl
  have hleads := (hsingle.leadsTo bareShelf).followed fun _ hlink =>
    nomatch hdirectory.symm.trans hlink
  refine ⟨Disk.isRooted_nil _, fun place number content hf => ?_, hleads, hdirectory,
    fun name _ => .inl rfl⟩
  by_cases hp : place = []
  · subst hp
    exact nomatch hf
  · cases he : place == ["env"] <;>
      simp [Disk.node?, bareShelf, List.lookup_cons, hp, he] at hf

/-- What is written under a key for the digest. -/
def signedBy (g : Guardian) : Envelope := ⟨2, "F3AE5FED", g.publicKey, [7], none⟩

theorem isStorable_signedBy : (signedBy calm).IsStorable ∧ (signedBy loud).IsStorable ∧
    (signedBy dora).IsStorable :=
  ⟨⟨by decide, by decide, by decide, nofun⟩, ⟨by decide, by decide, by decide, nofun⟩,
    ⟨by decide, by decide, by decide, nofun⟩⟩

def shared : Naming := ⟨"env", none, "F3AE5FED", none, true⟩

theorem fits_shared : (shared.forGuardian calm).Fits ∧ (shared.forGuardian loud).Fits ∧
    (shared.forGuardian dora).Fits :=
  ⟨⟨by decide, by decide, by decide⟩,
    ⟨by decide, by decide, by decide⟩,
    ⟨by decide, by decide, by decide⟩⟩

theorem teams_share_a_file_and_dora_does_not :
    (shared.forGuardian calm).plan.binaryPath ≠ (shared.forGuardian dora).plan.binaryPath ∧
    (∃ between after inbox,
      (signedBy calm).write (shared.forGuardian calm).plan bareShelf = (between, none) ∧
        (signedBy dora).write (shared.forGuardian dora).plan between = (after, none) ∧
        Inbox.load? after "env" = some inbox ∧
        signedBy calm ∈ inbox.envelopes ∧ signedBy dora ∈ inbox.envelopes) ∧
    ∃ between after,
      (signedBy calm).write (shared.forGuardian calm).plan bareShelf = (between, none) ∧
        (signedBy loud).write (shared.forGuardian loud).plan between = (after, none) ∧
        (shared.forGuardian calm).plan.Holds after (signedBy loud) := by
  have hcalm : calm ∈ teams.guardians := by decide
  have hloud : loud ∈ teams.guardians := by decide
  have hdora : dora ∈ teams.guardians := by decide
  obtain ⟨hstored, hstored', hstored''⟩ := isStorable_signedBy
  obtain ⟨hfits, hfits', hfits''⟩ := fits_shared
  obtain ⟨hpath, _, _, hplain, hwrite⟩ := envelopes_are_kept_apart_by_slugs (n := shared)
    ofGuardians_teams hcalm hdora (by decide) rfl
  obtain ⟨_, _, _, _, hwrite'⟩ := envelopes_are_kept_apart_by_slugs (n := shared)
    ofGuardians_teams hcalm hloud (by decide) rfl
  have hslug := hplain (List.all_eq_true.mp (by decide))
  obtain ⟨between, after, hfirst, hsecond, _, hboth, _⟩ :=
    hwrite bareShelf ["env"] (isShelf_bareShelf _) hfits hfits'' (signedBy calm) (signedBy dora)
  obtain ⟨_, hfound⟩ := hboth hslug
  obtain ⟨inbox, hload, hmem, hmem'⟩ := hfound hstored hstored''
  obtain ⟨between', after', hfirst', hsecond', _, _, hlost⟩ :=
    hwrite' bareShelf ["env"] (isShelf_bareShelf _) hfits hfits' (signedBy calm) (signedBy loud)
  exact ⟨hpath.mpr hslug, ⟨between, after, inbox, hfirst, hsecond, hload, hmem, hmem'⟩,
    between', after', hfirst', hsecond', hlost (by decide)⟩

/-- Two guardians of one roster whose files are the same. -/
theorem slug_of_two_guardians : Roster.ofGuardians [calm, loud, dora] = .ok teams ∧
    calm ∈ teams.guardians ∧ loud ∈ teams.guardians ∧ calm ≠ loud ∧
    (shared.forGuardian calm).plan = (shared.forGuardian loud).plan ∧
    (shared.forGuardian calm).plan.binaryPath = "env/f3ae5fed-ops-team.cbor" :=
  ⟨ofGuardians_teams, by decide, by decide, by decide, forGuardian_plan (by decide), by decide⟩

end Naming
end Countersign.Envelope
