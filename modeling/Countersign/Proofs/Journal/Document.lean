import Countersign.Proofs.Journal.Entries
import Mathlib.Data.List.Nodup

/-! The journal's document. Whatever the entries of a document are, what is read from it can be
written and read again without a loss. -/

namespace Countersign

namespace ExecutionRecord

theorem toJson_isReadable (r : ExecutionRecord) : r.toJson.isPlain = true ∧
    r.toJson.legible = true ∧ r.toJson.depth ≤ 2 ∧ r.toJson.untagged? = some r.toJson := by
  have hplain : ∀ ids : List String, Json.isPlainItems (ids.map Json.string) = true :=
    Json.isPlainItems_map fun _ => rfl
  have hlegible : ∀ ids : List String, Json.legibleItems (ids.map Json.string) = true :=
    Json.legibleItems_map Json.legible_string
  have hdepth : ∀ ids : List String, Json.depthItems (ids.map Json.string) = 0 := fun ids =>
    Nat.le_zero.mp (Json.depthItems_map (fun _ => Nat.le_refl 0) ids)
  have huntagged : ∀ ids : List String,
      Json.untaggedItems? (ids.map Json.string) = some (ids.map Json.string) :=
    Json.untaggedItems?_map fun _ => rfl
  obtain ⟨digest, time, txHash, approvals, note, onChainDigest⟩ := r
  refine ⟨?_, ?_, ?_, ?_⟩ <;>
    cases txHash <;> cases approvals <;> cases note <;> cases onChainDigest <;>
    simp [toJson, jsonEntry, Json.isPlain, Json.isPlainEntries, Json.legible, Json.legibleEntries,
      Json.depth, Json.depthEntries, Json.untagged?, Json.untaggedEntries?, Json.isTagged,
      Json.numberTag, Json.ascii, Json.string, Text.ofUtf8?_utf8, hplain, hlegible, hdepth,
      huntagged]

/-- The value that the document of records is the text of. -/
def documentJson (records : List ExecutionRecord) : Json :=
  .object [(Text.utf8 "executed", .array ((records.mergeSort before).map toJson))]

theorem takenIn?_documentJson (records : List ExecutionRecord) :
    Json.takenIn? 0 (documentJson records) = some (documentJson records) := by
  have hlegible := Json.legibleItems_map (fun r => (toJson_isReadable r).2.1)
    (records.mergeSort before)
  have hdepth := Json.depthItems_map (fun r => (toJson_isReadable r).2.2.1)
    (records.mergeSort before)
  have huntagged := Json.untaggedItems?_map (fun r => (toJson_isReadable r).2.2.2)
    (records.mergeSort before)
  have hsound : Json.Sound 0 (documentJson records) := by
    constructor
    · simp [documentJson, Json.legible, Json.legibleEntries, Text.ofUtf8?_utf8, hlegible]
    · simp only [documentJson, Json.depth, Json.depthEntries]
      omega
  rw [Json.takenIn?, if_pos hsound]
  simp [documentJson, Json.untagged?, Json.untaggedEntries?, Json.isTagged, Json.numberTag,
    Json.ascii, huntagged]

/-- Records that one document can list: each of them is read back, and no two are of one digest. -/
structure AreListable (records : List ExecutionRecord) : Prop where
  proper : ∀ r ∈ records, r.IsProper
  distinct : (records.map (·.digest)).Nodup

theorem areListable_nil : AreListable [] := ⟨by simp, by simp⟩

theorem AreListable.perm {records other : List ExecutionRecord} (h : AreListable records)
    (hp : records.Perm other) : AreListable other :=
  ⟨fun r hr => h.proper r (hp.mem_iff.mpr hr), (hp.map (·.digest)).nodup_iff.mp h.distinct⟩

theorem AreListable.eq_of_digest {records : List ExecutionRecord} (h : AreListable records)
    {r other : ExecutionRecord} (hr : r ∈ records) (ho : other ∈ records)
    (hd : r.digest = other.digest) : r = other :=
  List.inj_on_of_nodup_map h.distinct hr ho hd

theorem find?_eq_some_iff {records : List ExecutionRecord} (h : AreListable records)
    {digest : String} {r : ExecutionRecord} :
    find? records digest = some r ↔ r ∈ records ∧ r.digest = digest := by
  constructor
  · intro hf
    exact ⟨List.mem_of_find?_eq_some hf, by simpa using List.find?_some hf⟩
  · rintro ⟨hm, hd⟩
    cases hf : find? records digest with
    | none =>
      have hno := List.find?_eq_none.mp hf r hm
      simp [hd] at hno
    | some other =>
      have hod : other.digest = digest := by simpa using List.find?_some hf
      rw [h.eq_of_digest (List.mem_of_find?_eq_some hf) hm (hod.trans hd.symm)]

theorem areListable_foldl_addNew {kept records : List ExecutionRecord} (hk : AreListable kept)
    (h : ∀ r ∈ records, r.IsProper) : AreListable (records.foldl addNew kept) := by
  induction records generalizing kept with
  | nil => exact hk
  | cons r rest ih =>
    refine ih ⟨fun other ho => ?_, distinct_addNew hk.distinct r⟩
      (fun other ho => h other (List.mem_cons_of_mem _ ho))
    rcases mem_of_mem_addNew ho with ho | rfl
    · exact hk.proper other ho
    · exact h other List.mem_cons_self

theorem addNew_of_not_mem {records : List ExecutionRecord} {r : ExecutionRecord}
    (h : r.digest ∉ records.map (·.digest)) : addNew records r = records ++ [r] := by
  have hnone : find? records r.digest = none := by
    apply List.find?_eq_none.mpr
    intro other ho hd
    exact h (List.mem_map.mpr ⟨other, ho, by simpa using hd⟩)
  simp [addNew, hnone]

/-- Whatever the entries are, the records that are taken in can be listed. -/
theorem areListable_takeEntries (items : List Json) :
    AreListable (takeEntries 0 {} items).records := by
  rw [records_takeEntries]
  apply areListable_foldl_addNew areListable_nil
  intro r hr
  obtain ⟨entry, _, he⟩ := List.mem_filterMap.mp hr
  exact isProper_of_ofItem? he

theorem find?_takeEntries (items : List Json) (digest : String) :
    find? (takeEntries 0 {} items).records digest =
      (items.find? fun entry => digestOf? entry = some digest).bind ofItem? := by
  rw [records_takeEntries, find?_foldl_addNew]
  simp only [find?, List.find?_nil, Option.none_or]
  induction items with
  | nil => rfl
  | cons entry rest ih =>
    cases he : ofItem? entry with
    | none =>
      have hd : digestOf? entry = none := by simpa [ofItem?] using he
      simp only [List.filterMap_cons, he, ih, List.find?_cons, hd]
      rfl
    | some r =>
      have hd := digest_of_ofItem? he
      by_cases h : r.digest = digest
      · simp [he, hd, h]
      · simp [he, hd, h, ih]

theorem takeEntries_toJson (place : Nat) (loaded : Loaded) {records : List ExecutionRecord}
    (h : AreListable (loaded.records ++ records)) :
    takeEntries place loaded (records.map toJson) =
      ⟨loaded.records ++ records, loaded.warnings⟩ := by
  induction records generalizing place loaded with
  | nil => simp [takeEntries]
  | cons r rest ih =>
    have hr := h.proper r (by simp)
    have hnew : r.digest ∉ loaded.records.map (·.digest) := by
      have hd := h.distinct
      rw [List.map_append, List.nodup_append] at hd
      exact fun hm => hd.2.2 r.digest hm r.digest (by simp) rfl
    rw [List.map_cons]
    simp only [takeEntries, digestOf?_toJson hr, ofJson?_toJson hr, addNew_of_not_mem hnew]
    rw [ih (place + 1) _ (by simpa using h)]
    simp

/-- The entries of a document decide on what is read from it. -/
theorem ofDocument_of_entries {text : String} {entries : List (Bytes × Json)} {items : List Json}
    (hj : (Json.read? (Text.utf8 text)).bind (Json.takenIn? 0) = some (.object entries))
    (he : Json.entry? "executed" entries = some (.array items)) :
    ofDocument text = .ok (takeEntries 0 {} items) := by
  have hblank : Text.trim text.toList ≠ [] := by
    intro hb
    rw [Json.read?_of_blank hb] at hj
    exact nomatch hj
  simp [ofDocument, hblank, hj, he]

theorem areListable_of_ofDocument {text : String} {loaded : Loaded}
    (h : ofDocument text = .ok loaded) : AreListable loaded.records := by
  unfold ofDocument at h
  split at h
  · rw [← Except.ok.inj h]
    exact areListable_nil
  · split at h
    · exact nomatch h
    · split at h
      · rw [← Except.ok.inj h]
        exact areListable_nil
      · rw [← Except.ok.inj h]
        exact areListable_nil
      · rw [← Except.ok.inj h]
        exact areListable_takeEntries _
      · exact nomatch h
    · exact nomatch h

/-- The document of records is a text, and the records are what is read from it. -/
theorem exists_text_document {records : List ExecutionRecord} (h : AreListable records) :
    ∃ text, Text.ofUtf8? (document records) = some text ∧
      ofDocument text = .ok ⟨records.mergeSort before, []⟩ := by
  have hplain : (documentJson records).isPlain = true := by
    have hitems := Json.isPlainItems_map (fun r => (toJson_isReadable r).1)
      (records.mergeSort before)
    simp [documentJson, Json.isPlain, Json.isPlainEntries, hitems]
  have htaken := takenIn?_documentJson records
  have hlegible : (documentJson records).legible = true := by
    unfold Json.takenIn? at htaken
    split at htaken
    · rename_i hsound
      exact hsound.1
    · exact nomatch htaken
  obtain ⟨text, hof, _, hread⟩ := Json.exists_text_pretty 0 hplain hlegible
  refine ⟨text, hof, ?_⟩
  have hall : AreListable ([] ++ records.mergeSort before) :=
    h.perm (List.mergeSort_perm records before).symm
  have hdoc : ofDocument text = .ok (takeEntries 0 {} ((records.mergeSort before).map toJson)) :=
    ofDocument_of_entries (by rw [hread, Option.bind_some, htaken, documentJson])
      (by simp [ Json.entry?])
  rw [hdoc, takeEntries_toJson 0 {} hall]
  simp

end ExecutionRecord
end Countersign
