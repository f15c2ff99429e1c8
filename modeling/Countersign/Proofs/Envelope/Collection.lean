import Countersign.Proofs.Disk.Paths
import Countersign.Proofs.Envelope.Inbox
import Countersign.Proofs.Text.Order

/-! What is collected from a directory. Each entry is reported on once, in the order of the bytes
of its name, and leaves its envelope if it is a file that holds one; the order in which the
directory is enumerated is not seen. -/

namespace Countersign

namespace Disk

variable {disk other : Disk} {place : Location} {name : String} {node : Node}

/-- The entries of the directory at a place, as they are enumerated. -/
def entriesAt (disk : Disk) (place : Location) : List (String × Node) :=
  disk.nodes.filterMap fun (other, node) =>
    if other.dropLast = place then other.getLast?.map (·, node) else none

/-- Nothing stands at a location twice. -/
def IsProper (disk : Disk) : Prop := (disk.nodes.map Prod.fst).Nodup

theorem eq_append_of_getLast? {location : Location} (hp : location.dropLast = place)
    (hl : location.getLast? = some name) : location = place ++ [name] := by
  obtain ⟨front, rfl⟩ := List.getLast?_eq_some_iff.mp hl
  rw [← hp, List.dropLast_concat]

theorem lookup_entriesAt (disk : Disk) (place : Location) (name : String) :
    (disk.entriesAt place).lookup name = disk.nodes.lookup (place ++ [name]) := by
  unfold entriesAt
  induction disk.nodes with
  | nil => rfl
  | cons e rest ih =>
    obtain ⟨location, node⟩ := e
    by_cases hsame : location = place ++ [name]
    · subst hsame
      simp
    · have hne : (place ++ [name] == location) = false := beq_eq_false_iff_ne.mpr (Ne.symm hsame)
      rw [List.lookup_cons, hne, ← ih]
      by_cases hp : location.dropLast = place
      · cases hl : location.getLast? with
        | none => simp [hl]
        | some last =>
          have hlast : (name == last) = false := beq_eq_false_iff_ne.mpr fun heq =>
            hsame (eq_append_of_getLast? hp (heq ▸ hl))
          simp [hp, hl, List.lookup_cons, hlast]
      · simp [hp]

theorem names_entriesAt (disk : Disk) (place : Location) :
    (disk.entriesAt place).map Prod.fst = (disk.nodes.map Prod.fst).filterMap fun location =>
      if location.dropLast = place then location.getLast? else none := by
  rw [entriesAt, List.map_filterMap, List.filterMap_map]
  congr 1
  funext ⟨location, node⟩
  by_cases hp : location.dropLast = place <;> simp [hp, Function.comp_def]

theorem list?_eq {path : String} (hd : disk.resolve true path = .ok (place, some .directory)) :
    disk.list? path = some ((disk.entriesAt place).map Prod.fst) := by
  rw [list?, hd, names_entriesAt, List.filterMap_map]
  rfl

theorem IsProper.nodup_names (h : disk.IsProper) (place : Location) :
    ((disk.entriesAt place).map Prod.fst).Nodup := by
  rw [names_entriesAt]
  refine List.Nodup.filterMap (fun location other name hl ho => ?_) h
  obtain ⟨hp, hl⟩ := Option.ite_none_right_eq_some.mp hl
  obtain ⟨ho, hlast⟩ := Option.ite_none_right_eq_some.mp ho
  rw [eq_append_of_getLast? hp hl, eq_append_of_getLast? ho hlast]

theorem node?_of_mem_entriesAt (hd : ((disk.entriesAt place).map Prod.fst).Nodup)
    (h : (name, node) ∈ disk.entriesAt place) : disk.node? (place ++ [name]) = some node := by
  have hlookup := lookup_of_mem hd h
  rw [lookup_entriesAt] at hlookup
  simpa [node?] using hlookup

/-! ### Other orders -/

theorem node?_perm (h : disk.IsProper) {nodes : List (Location × Node)}
    (hp : nodes.Perm disk.nodes) (location : Location) :
    { disk with nodes := nodes }.node? location = disk.node? location := by
  simp only [node?, lookup_perm hp.symm h]

theorem resolve_perm (h : disk.IsProper) {nodes : List (Location × Node)}
    (hp : nodes.Perm disk.nodes) {path : String}
    (hd : disk.resolve true path = .ok (place, some .directory)) :
    { disk with nodes := nodes }.resolve true path = .ok (place, some .directory) := by
  have hnode := node?_perm h hp
  obtain ⟨hleads, hplace⟩ := resolve_eq_ok_iff.mp hd
  have hk : disk.KeepsWays { disk with nodes := nodes } :=
    ⟨rfl, fun place h => (hnode place).trans h, fun place _ h => (hnode place).trans h⟩
  refine resolve_eq_ok_iff.mpr ⟨hleads.of_keepsWays hk fun _ target hl => ?_,
    hplace.trans (hnode place).symm⟩
  exact nomatch hplace.trans ((hnode place).symm.trans hl)

end Disk

namespace Envelope

variable {node : Node} {e : Envelope} {format : Format}

/-- The entry is a file that is not empty, and its content is the envelope in that format. -/
def IsHeldBy (e : Envelope) (format : Format) (node : Node) : Prop :=
  ∃ number content, node = .file number content ∧ content ≠ [] ∧ format.decode content = .ok e

theorem ofNode_eq_ok_iff : ofNode node = .ok (e, format) ↔ e.IsHeldBy format node := by
  constructor
  · intro h
    unfold ofNode at h
    split at h
    · exact nomatch h
    · rename_i number content hne
      refine ⟨number, content, rfl, hne, ?_⟩
      split at h
      · rename_i hb
        cases h
        exact hb
      · split at h
        · rename_i ht
          cases h
          exact ht
        · exact nomatch h
    · exact nomatch h
  · rintro ⟨number, content, rfl, _, h⟩
    exact ofNode_of_decode h number

theorem isHeldBy_encode (h : format = .cbor → e.IsStorable) (number : Nat) :
    e.IsHeldBy format (.file number (format.encode e)) :=
  ofNode_eq_ok_iff.mp (ofNode_of_decode (Format.decode_encode h) number)

theorem not_isHeldBy_of_error {reason : SkipReason} (h : ofNode node = .error reason) :
    ¬ e.IsHeldBy format node :=
  fun he => nomatch h.symm.trans (ofNode_eq_ok_iff.mpr he)

theorem IsHeldBy.eq {other : Envelope} {format' : Format} (h : e.IsHeldBy format node)
    (h' : other.IsHeldBy format' node) : other = e ∧ format' = format := by
  have hsame := (ofNode_eq_ok_iff.mpr h').symm.trans (ofNode_eq_ok_iff.mpr h)
  exact Prod.mk.inj (Except.ok.inj hsame)

/-- Reports and envelopes that come of entries, in step with them. -/
inductive AreCollected (directory : String) :
    List (String × Node) → List Report → List Envelope → Prop where
  | nil : AreCollected directory [] [] []
  | parsed {name : String} {node : Node} {e : Envelope} {format : Format}
      {entries : List (String × Node)} {reports : List Report} {envelopes : List Envelope}
      (h : e.IsHeldBy format node) (rest : AreCollected directory entries reports envelopes) :
      AreCollected directory ((name, node) :: entries)
        (⟨Path.join directory name, .parsed format⟩ :: reports) (e :: envelopes)
  | skipped {name : String} {node : Node} {reason : SkipReason}
      {entries : List (String × Node)} {reports : List Report} {envelopes : List Envelope}
      (h : ∀ (e : Envelope) format, ¬ e.IsHeldBy format node)
      (rest : AreCollected directory entries reports envelopes) :
      AreCollected directory ((name, node) :: entries)
        (⟨Path.join directory name, .skipped reason⟩ :: reports) envelopes

namespace AreCollected

variable {directory : String} {entries : List (String × Node)} {reports : List Report}
  {envelopes : List Envelope}

theorem length_reports (h : AreCollected directory entries reports envelopes) :
    reports.length = entries.length := by
  induction h with
  | nil => rfl
  | parsed _ _ ih => rw [List.length_cons, List.length_cons, ih]
  | skipped _ _ ih => rw [List.length_cons, List.length_cons, ih]

theorem mem_envelopes_iff (h : AreCollected directory entries reports envelopes) :
    e ∈ envelopes ↔ ∃ name node format, (name, node) ∈ entries ∧ e.IsHeldBy format node := by
  induction h with
  | nil => simp
  | @parsed name node found format _ _ _ hfound _ ih =>
    rw [List.mem_cons, ih]
    constructor
    · rintro (rfl | ⟨name', node', format', hm, he⟩)
      · exact ⟨name, node, format, List.mem_cons_self, hfound⟩
      · exact ⟨name', node', format', List.mem_cons_of_mem _ hm, he⟩
    · rintro ⟨name', node', format', hm, he⟩
      rcases List.mem_cons.mp hm with heq | hm
      · obtain ⟨rfl, rfl⟩ := Prod.mk.inj heq
        exact .inl (hfound.eq he).1
      · exact .inr ⟨name', node', format', hm, he⟩
  | @skipped name node _ _ _ _ hnone _ ih =>
    rw [ih]
    constructor
    · rintro ⟨name', node', format', hm, he⟩
      exact ⟨name', node', format', List.mem_cons_of_mem _ hm, he⟩
    · rintro ⟨name', node', format', hm, he⟩
      rcases List.mem_cons.mp hm with heq | hm
      · obtain ⟨rfl, rfl⟩ := Prod.mk.inj heq
        exact absurd he (hnone e format')
      · exact ⟨name', node', format', hm, he⟩

/-- What is told of an entry that holds an envelope is the format in which it does. -/
theorem mem_reports (h : AreCollected directory entries reports envelopes) {name : String}
    (hm : (name, node) ∈ entries) (he : e.IsHeldBy format node) :
    ⟨Path.join directory name, .parsed format⟩ ∈ reports := by
  induction h with
  | nil => exact nomatch hm
  | parsed hfound _ ih =>
    rcases List.mem_cons.mp hm with heq | hm
    · obtain ⟨rfl, rfl⟩ := Prod.mk.inj heq
      obtain ⟨_, rfl⟩ := hfound.eq he
      exact List.mem_cons_self
    · exact List.mem_cons_of_mem _ (ih hm)
  | skipped hnone _ ih =>
    rcases List.mem_cons.mp hm with heq | hm
    · obtain ⟨rfl, rfl⟩ := Prod.mk.inj heq
      exact absurd he (hnone e format)
    · exact List.mem_cons_of_mem _ (ih hm)

end AreCollected

namespace Inbox

theorem areCollected_ofEntries (directory : String) (entries : List (String × Node)) :
    AreCollected directory entries
      (ofEntries (entries.map fun e => (Path.join directory e.1, e.2))).reports
      (ofEntries (entries.map fun e => (Path.join directory e.1, e.2))).envelopes := by
  induction entries with
  | nil => exact .nil
  | cons entry rest ih =>
    obtain ⟨name, node⟩ := entry
    have hcons : ofEntries (((name, node) :: rest).map fun e => (Path.join directory e.1, e.2)) =
        add (Path.join directory name) node
          (ofEntries (rest.map fun e => (Path.join directory e.1, e.2))) := rfl
    rw [hcons, add]
    cases hnode : ofNode node with
    | ok found =>
      obtain ⟨e, format⟩ := found
      exact .parsed (ofNode_eq_ok_iff.mp hnode) ih
    | error reason =>
      exact .skipped (fun _ _ => not_isHeldBy_of_error hnode) ih

/-- The entries by their names. -/
def sorted (entries : List (String × Node)) : List (String × Node) :=
  entries.mergeSort fun a b => a.1 ≤ b.1

variable {entries other : List (String × Node)}

theorem sorted_perm (entries : List (String × Node)) : (sorted entries).Perm entries :=
  List.mergeSort_perm entries _

theorem pairwise_sorted (entries : List (String × Node)) :
    (sorted entries).Pairwise fun a b => a.1 ≤ b.1 := by
  have h : (sorted entries).Pairwise fun a b => decide (a.1 ≤ b.1) = true := by
    apply List.pairwise_mergeSort
    · intro a b c hab hbc
      exact decide_eq_true (le_trans (of_decide_eq_true hab) (of_decide_eq_true hbc))
    · intro a b
      simpa using le_total a.1 b.1
  exact h.imp of_decide_eq_true

theorem pairwise_bytes_sorted (hd : (entries.map Prod.fst).Nodup) :
    (sorted entries).Pairwise fun a b => Text.utf8 a.1 < Text.utf8 b.1 := by
  have hdistinct : (sorted entries).Pairwise fun a b => a.1 ≠ b.1 :=
    List.pairwise_map.mp (((sorted_perm entries).map Prod.fst).nodup_iff.mpr hd)
  exact ((pairwise_sorted entries).and hdistinct).imp fun hab =>
    Text.utf8_lt_utf8_iff.mpr (lt_of_le_of_ne hab.1 hab.2)

theorem sorted_eq_of_perm (hd : (entries.map Prod.fst).Nodup) (hp : other.Perm entries) :
    sorted other = sorted entries := by
  have hs := sorted_perm entries
  refine List.Perm.eq_of_pairwise (fun a b ha hb hab hba => ?_) (pairwise_sorted other)
    (pairwise_sorted entries) ((sorted_perm other).trans (hp.trans hs.symm))
  have ha := hp.mem_iff.mp ((sorted_perm other).mem_iff.mp ha)
  exact List.inj_on_of_nodup_map hd ha (hs.mem_iff.mp hb) (le_antisymm hab hba)

theorem listed?_eq {disk : Disk} {directory : String} {place : Location}
    (hd : disk.resolve true directory = .ok (place, some .directory))
    (hn : ((disk.entriesAt place).map Prod.fst).Nodup) :
    listed? disk directory =
      some ((sorted (disk.entriesAt place)).map fun e => (Path.join directory e.1, e.2)) := by
  have hplace : (disk.resolve true directory).toOption = some (place, some .directory) := by
    rw [hd]
    rfl
  have hnames : ((disk.entriesAt place).map Prod.fst).mergeSort (fun a b => a ≤ b) =
      (sorted (disk.entriesAt place)).map Prod.fst :=
    (List.map_mergeSort (f := Prod.fst) fun _ _ _ _ => rfl).symm
  simp only [listed?, Disk.list?_eq hd, hplace, Option.bind_eq_bind, Option.bind_some, hnames,
    List.filterMap_map]
  rw [← List.filterMap_eq_map]
  apply congrArg some
  apply List.filterMap_congr
  intro e he
  have hnode := Disk.node?_of_mem_entriesAt hn ((sorted_perm _).mem_iff.mp he)
  simp [hnode]

/-- Every entry of a directory is reported on once, in the order of names, and leaves its envelope
if it holds one; and the same comes of it in whatever order the directory is enumerated. -/
theorem collection_is_complete_in_any_order {disk : Disk} {directory : String} {place : Location}
    (hp : disk.IsProper) (hd : disk.resolve true directory = .ok (place, some .directory)) :
    ∃ inbox listed, load? disk directory = some inbox ∧
      listed.Perm (disk.entriesAt place) ∧
      listed.Pairwise (fun a b => Text.utf8 a.1 < Text.utf8 b.1) ∧
      AreCollected directory listed inbox.reports inbox.envelopes ∧
      (∀ nodes : List (Location × Node), nodes.Perm disk.nodes →
        load? { disk with nodes := nodes } directory = some inbox) ∧
      ∀ (other : Disk) (elsewhere : Location),
        other.resolve true directory = .ok (elsewhere, some .directory) →
        (other.entriesAt elsewhere).Perm (disk.entriesAt place) →
        load? other directory = some inbox := by
  have hn := hp.nodup_names place
  have hload : ∀ (other : Disk) (elsewhere : Location),
      other.resolve true directory = .ok (elsewhere, some .directory) →
      (other.entriesAt elsewhere).Perm (disk.entriesAt place) →
      load? other directory = some (ofEntries ((sorted (disk.entriesAt place)).map fun e =>
        (Path.join directory e.1, e.2))) := by
    intro other elsewhere ho hperm
    have hno := (hperm.map Prod.fst).nodup_iff.mpr hn
    rw [load?_eq, listed?_eq ho hno, sorted_eq_of_perm hn hperm]
    rfl
  refine ⟨_, sorted (disk.entriesAt place), hload disk place hd (.refl _), sorted_perm _,
    pairwise_bytes_sorted hn, areCollected_ofEntries directory _, ?_, hload⟩
  intro nodes hnodes
  exact hload _ place (Disk.resolve_perm hp hnodes hd) (hnodes.filterMap _)

def plain (digest : String) : Envelope := ⟨2, digest, [1], [2], none⟩

/-- A directory with a link, an empty file and an envelope in each of the formats. -/
def linkAndFiles : Disk where
  nodes := [(["e"], .directory), (["e", "d"], .link "c"),
    (["e", "c"], .file 0 (Format.cbor.encode (plain "0xaa"))), (["e", "a"], .file 1 []),
    (["e", "b"], .file 2 (Format.json.encode (plain "0xbb")))]
  made := 3

theorem link_and_file_are_reported_on :
    linkAndFiles.IsProper ∧ linkAndFiles.resolve true "e" = .ok (["e"], some .directory) ∧
    ∃ inbox, load? linkAndFiles "e" = some inbox ∧ inbox.reports.length = 4 ∧
      ⟨"e/b", .parsed .json⟩ ∈ inbox.reports ∧ ⟨"e/c", .parsed .cbor⟩ ∈ inbox.reports ∧
      (∀ e, e ∈ inbox.envelopes ↔ e = plain "0xaa" ∨ e = plain "0xbb") ∧
      load? { linkAndFiles with nodes := linkAndFiles.nodes.reverse } "e" = some inbox := by
  have hp : linkAndFiles.IsProper := by
    rw [Disk.IsProper]
    decide
  have hd : linkAndFiles.resolve true "e" = .ok (["e"], some .directory) :=
    Disk.IsSingle.resolve (by decide +kernel) rfl (by simp)
  have hentries : linkAndFiles.entriesAt ["e"] = [("d", .link "c"),
      ("c", .file 0 (Format.cbor.encode (plain "0xaa"))), ("a", .file 1 []),
      ("b", .file 2 (Format.json.encode (plain "0xbb")))] := rfl
  have hbinary : (plain "0xaa").IsHeldBy .cbor (.file 0 (Format.cbor.encode (plain "0xaa"))) :=
    isHeldBy_encode (fun _ => ⟨by decide, by decide, by decide, by simp [plain]⟩) 0
  have htextual : (plain "0xbb").IsHeldBy .json (.file 2 (Format.json.encode (plain "0xbb"))) :=
    isHeldBy_encode (fun h : Format.json = .cbor => nomatch h) 2
  obtain ⟨inbox, listed, hload, hperm, _, hcollected, hrearranged, _⟩ :=
    collection_is_complete_in_any_order hp hd
  rw [hentries] at hperm
  have hb : ⟨Path.join "e" "b", .parsed .json⟩ ∈ inbox.reports :=
    hcollected.mem_reports (hperm.mem_iff.mpr (by simp)) htextual
  have hc : ⟨Path.join "e" "c", .parsed .cbor⟩ ∈ inbox.reports :=
    hcollected.mem_reports (hperm.mem_iff.mpr (by simp)) hbinary
  rw [show Path.join "e" "b" = "e/b" by decide +kernel] at hb
  rw [show Path.join "e" "c" = "e/c" by decide +kernel] at hc
  refine ⟨hp, hd, inbox, hload, hcollected.length_reports.trans hperm.length_eq, hb, hc,
    fun e => ?_, hrearranged _ (List.reverse_perm _)⟩
  rw [hcollected.mem_envelopes_iff]
  simp only [hperm.mem_iff]
  constructor
  · rintro ⟨name, node, format, hm, he⟩
    simp only [List.mem_cons, Prod.mk.injEq, List.not_mem_nil, or_false] at hm
    rcases hm with ⟨_, rfl⟩ | ⟨_, rfl⟩ | ⟨_, rfl⟩ | ⟨_, rfl⟩
    · exact absurd he (not_isHeldBy_of_error rfl)
    · exact .inl (hbinary.eq he).1
    · exact absurd he (not_isHeldBy_of_error rfl)
    · exact .inr (htextual.eq he).1
  · rintro (rfl | rfl)
    · exact ⟨"c", _, .cbor, by simp, hbinary⟩
    · exact ⟨"b", _, .json, by simp, htextual⟩

end Inbox
end Envelope
end Countersign
