import Countersign.Proofs.Journal.Sharing

/-! Damaged documents. Whatever stands beside an entry, the digest that it names is recorded, and
no later rewriting of the document loses it. -/

namespace Countersign.Journal

open ExecutionRecord (digestOf? ofJson? recovered)

/-- The entries name a digest: one of them is an object with a text for it that is not blank. -/
def IsListed (items : List Json) (digest : String) : Prop :=
  ∃ entry ∈ items, ∃ s, (entry.get? "digest").bind Json.string? = some s ∧
    Text.trim s.toList ≠ [] ∧ Digest.normalForm s = digest

theorem isListed_iff {items : List Json} {digest : String} :
    IsListed items digest ↔ ∃ entry ∈ items, digestOf? entry = some digest := by
  simp only [IsListed, ExecutionRecord.digestOf?_eq_some_iff]

theorem exists_record_iff_isListed (items : List Json) (digest : String) :
    (∃ r ∈ (ExecutionRecord.takeEntries 0 {} items).records, r.digest = digest) ↔
      IsListed items digest := by
  have hlist := ExecutionRecord.areListable_takeEntries items
  rw [isListed_iff]
  constructor
  · rintro ⟨r, hr, hd⟩
    have hf := (ExecutionRecord.find?_eq_some_iff hlist).mpr ⟨hr, hd⟩
    rw [ExecutionRecord.find?_takeEntries] at hf
    obtain ⟨entry, he, _⟩ := Option.bind_eq_some_iff.mp hf
    exact ⟨entry, List.mem_of_find?_eq_some he, by simpa using List.find?_some he⟩
  · rintro ⟨entry, hm, hd⟩
    have hsome : (items.find? fun e => digestOf? e = some digest).isSome = true :=
      List.find?_isSome.mpr ⟨entry, hm, by simpa using hd⟩
    obtain ⟨first, hfirst⟩ := Option.isSome_iff_exists.mp hsome
    have hdf : digestOf? first = some digest := by simpa using List.find?_some hfirst
    have hf : ExecutionRecord.find? (ExecutionRecord.takeEntries 0 {} items).records digest =
        some ((ofJson? digest first).getD (recovered digest)) := by
      rw [ExecutionRecord.find?_takeEntries, hfirst, Option.bind_some, ExecutionRecord.ofItem?, hdf]
      rfl
    exact ⟨_, (ExecutionRecord.find?_eq_some_iff hlist).mp hf⟩

theorem readFile_of_text {disk : Disk} {path text : String} (h : disk.readText? path = some text) :
    readFile disk path = match ExecutionRecord.ofDocument text with
      | .ok loaded => .ok loaded
      | .error why => .error (.unreadable path why) := by
  have hc : disk.contains path = true := by
    unfold Disk.readText? Disk.read? at h
    cases hf : disk.find? path with
    | none => simp [hf] at h
    | some node => simp [Disk.contains, hf]
  cases hd : ExecutionRecord.ofDocument text <;> simp [readFile, hc, h, hd]

theorem at?_file_of_text {disk : Disk} {path text : String} (hh : disk.Houses path)
    (h : disk.readText? path = some text) :
    ∃ number content, disk.at? true path = some (.file number content) := by
  unfold Disk.readText? Disk.read? at h
  rw [Disk.find?_eq_at?] at h
  rcases hh.file with hv | ⟨number, content, ha, _⟩
  · rcases hv.at? true with ha | ha <;> simp [ha] at h
  · exact ⟨number, content, ha⟩

/-- A document whose `executed` is an array is opened whatever the entries are: the digests that
they name are the recorded ones, the first entry of each digest decides on its record, and in any
run from there the digests of the file are these and the ones that are recorded. -/
theorem damage_loses_no_digest {disk : Disk} {path text : String}
    (ht : disk.readText? path = some text) {entries : List (Bytes × Json)} {items : List Json}
    (hj : (Json.read? (Text.utf8 text)).bind (Json.takenIn? 0) = some (.object entries))
    (he : Json.entry? "executed" entries = some (.array items)) :
    (∃ journal warnings, Journal.open disk path = .ok (journal, warnings) ∧
      (∀ digest, (∃ r ∈ journal.records, r.digest = digest) ↔ IsListed items digest) ∧
      (journal.records.map (·.digest)).Nodup ∧
      ∀ before entry after digest, items = before ++ entry :: after →
        digestOf? entry = some digest → (∀ e ∈ before, digestOf? e ≠ some digest) →
          journal.find? digest = some ((ofJson? digest entry).getD (recovered digest))) ∧
    (disk.Houses path → ∀ past s, Sharing.Run path ⟨disk, fun _ => none, none⟩ past s →
      ∃ journal warnings, Journal.open s.disk path = .ok (journal, warnings) ∧
        ∀ digest, (∃ r ∈ journal.records, r.digest = digest) ↔
          IsListed items digest ∨ ∃ e ∈ past, Digest.normalForm e.1 = digest) := by
  have hdoc := ExecutionRecord.ofDocument_of_entries hj he
  have hread : readFile disk path = .ok (ExecutionRecord.takeEntries 0 {} items) := by
    rw [readFile_of_text ht, hdoc]
  have hlist := ExecutionRecord.areListable_takeEntries items
  refine ⟨⟨⟨path, (ExecutionRecord.takeEntries 0 {} items).records⟩,
    (ExecutionRecord.takeEntries 0 {} items).warnings, open_eq_ok_iff.mpr ⟨rfl, hread⟩,
    exists_record_iff_isListed items, hlist.distinct, ?_⟩, fun hh past s hrun => ?_⟩
  · rintro before entry after digest rfl hd hnone
    have hfirst : (before ++ entry :: after).find? (fun e => digestOf? e = some digest) =
        some entry := by
      rw [List.find?_append, List.find?_eq_none.mpr (fun e hm => by simpa using hnone e hm),
        Option.none_or, List.find?_cons_of_pos (by simpa using hd)]
    rw [find?, ExecutionRecord.normalForm_of_digestOf? hd, ExecutionRecord.find?_takeEntries,
      hfirst, Option.bind_some, ExecutionRecord.ofItem?, hd]
    rfl
  · have hstart : Sharing.IsStart path (ExecutionRecord.takeEntries 0 {} items)
        ⟨disk, fun _ => none, none⟩ := ⟨hh, hread, fun _ => rfl, rfl⟩
    obtain ⟨hs, hdigest⟩ := hstart.consistent.run hrun
    obtain ⟨number, content, ha⟩ := hstart.consistent.run_file hrun (at?_file_of_text hh ht)
    obtain ⟨loaded, hloaded, hall⟩ := hs.stands.exists_readFile (by simp [ha])
    refine ⟨⟨path, loaded.records⟩, loaded.warnings, open_eq_ok_iff.mpr ⟨rfl, hloaded⟩,
      fun digest => ?_⟩
    rw [← exists_record_iff_isListed items digest]
    constructor
    · rintro ⟨r, hr, hd⟩
      rcases List.mem_append.mp ((hall r).mp hr) with hr | hr
      · exact .inl ⟨r, hr, hd⟩
      · obtain ⟨e, hem, rfl⟩ := List.mem_map.mp hr
        exact .inr ⟨e, hem, by rw [← hdigest e hem, hd]⟩
    · rintro (⟨r, hr, hd⟩ | ⟨e, hem, hd⟩)
      · exact ⟨r, (hall r).mpr (List.mem_append_left _ hr), hd⟩
      · exact ⟨e.2, (hall e.2).mpr (List.mem_append_right _ (List.mem_map_of_mem hem)),
          by rw [hdigest e hem, hd]⟩

/-- Entries of which one names a digest, and says nothing else that could be read. -/
def damagedItems : List Json :=
  [.natural 5, .object [(Text.utf8 "at", .string "noon")],
    .object [(Text.utf8 "digest", .string " AB "), (Text.utf8 "at", .string "noon")]]

def damagedDocument : Json := .object [(Text.utf8 "executed", .array damagedItems)]

/-- The one digest in the damaged document is kept, whatever is recorded afterwards. -/
theorem damaged_digest_kept :
    (∃ journal warnings, Journal.open (Sharing.singleFile (damagedDocument.pretty 0)) "j" =
        .ok (journal, warnings) ∧ journal.find? "0xAB" = some (recovered "0xab")) ∧
    ∀ past s, Sharing.Run "j" ⟨Sharing.singleFile (damagedDocument.pretty 0), fun _ => none, none⟩
        past s → ∃ journal warnings, Journal.open s.disk "j" = .ok (journal, warnings) ∧
          ∃ r ∈ journal.records, r.digest = "0xab" := by
  obtain ⟨hh, ha⟩ := Sharing.houses_singleFile (damagedDocument.pretty 0)
  have hlegible : damagedDocument.legible = true := by
    simp [damagedDocument, damagedItems, Json.legible, Json.legibleEntries, Json.legibleItems,
      Json.string, Text.ofUtf8?_utf8]
  obtain ⟨text, hof, _, hread⟩ := Json.exists_text_pretty 0 (j := damagedDocument) rfl hlegible
  have ht : (Sharing.singleFile (damagedDocument.pretty 0)).readText? "j" = some text := by
    simp only [Disk.readText?, Disk.read?, Disk.find?_eq_at?, ha, Option.bind_some, hof]
  have htaken : Json.takenIn? 0 damagedDocument = some damagedDocument := by
    have hdepth : damagedDocument.depth = 3 := by
      simp [damagedDocument, damagedItems, Json.depth, Json.depthEntries, Json.depthItems,
        Json.string]
    rw [Json.takenIn?, if_pos ⟨hlegible, by omega⟩]
    simp [damagedDocument, damagedItems, Json.untagged?, Json.untaggedEntries?, Json.untaggedItems?,
      Json.isTagged, Json.numberTag, Json.ascii, Json.string]
  have hj : (Json.read? (Text.utf8 text)).bind (Json.takenIn? 0) =
      some (.object [(Text.utf8 "executed", .array damagedItems)]) := by
    rw [hread, Option.bind_some, htaken, damagedDocument]
  have he : Json.entry? "executed" [(Text.utf8 "executed", .array damagedItems)] =
      some (.array damagedItems) := by simp [ Json.entry?]
  obtain ⟨⟨journal, warnings, hopen, _, _, hfirst⟩, hrun⟩ := damage_loses_no_digest ht hj he
  have hd : digestOf? (.object [(Text.utf8 "digest", .string " AB "),
      (Text.utf8 "at", .string "noon")]) = some "0xab" := by
    have hnamed : (Json.object [(Text.utf8 "digest", .string " AB "),
        (Text.utf8 "at", .string "noon")]).get? "digest" = some (.string " AB ") := by
      simp [Json.get?, Json.entry?_cons, Json.entry?_nil]
    refine ExecutionRecord.digestOf?_eq_some_iff.mpr
      ⟨" AB ", ?_, by decide +kernel, by decide +kernel⟩
    rw [hnamed, Option.bind_some, Json.string?_string]
  refine ⟨⟨journal, warnings, hopen, ?_⟩, fun past s hr => ?_⟩
  · have hf := hfirst [.natural 5, .object [(Text.utf8 "at", .string "noon")]] _ [] "0xab" rfl hd
      (by simp [digestOf?, Json.get?, Json.entry?_cons, Json.entry?_nil])
    have hpart : ofJson? "0xab" (.object [(Text.utf8 "digest", .string " AB "),
        (Text.utf8 "at", .string "noon")]) = none := by
      have hnoon : Moment.parse? "noon" = none := by decide +kernel
      simp [ofJson?, Json.get?, Json.entry?_cons, Json.entry?_nil, hnoon]
    have hsame : Digest.normalForm "0xAB" = Digest.normalForm "0xab" := by decide +kernel
    rw [find?, hsame, ← find?, hf, hpart, Option.getD_none]
  · obtain ⟨journal, warnings, hopen, hall⟩ := hrun hh past s hr
    refine ⟨journal, warnings, hopen, (hall "0xab").mpr (.inl (isListed_iff.mpr ?_))⟩
    exact ⟨_, by simp [damagedItems], hd⟩

end Countersign.Journal
