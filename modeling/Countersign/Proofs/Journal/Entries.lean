import Countersign.Journal.Record
import Countersign.Proofs.Intent.DigestText
import Countersign.Proofs.Json.Entry
import Countersign.Proofs.Moment

/-! Entries of the journal's document. A record that is written as an entry is read back from it,
and of all entries that name one digest the first decides on its record. -/

namespace Countersign

namespace Digest

theorem trim_normalForm_ne_nil (s : String) : Text.trim (normalForm s).toList ≠ [] := by
  obtain ⟨rest, hn, hlast, _⟩ := normalForm_shape s
  rw [hn, String.toList_ofList, Text.trim_eq_self (by simp [Text.isBlank]) hlast]
  exact List.cons_ne_nil _ _

theorem normalForm_trimmed (s : String) : normalForm (Text.trimmed s) = normalForm s := by
  simp [normalForm, Text.trimmed]

end Digest

namespace ExecutionRecord

/-- A record that is read back from its entry. -/
structure IsProper (r : ExecutionRecord) : Prop where
  digest : Digest.normalForm r.digest = r.digest
  time : r.time.IsValid

theorem entry?_jsonEntry (name other : String) (j : Option Json) :
    Json.entry? name (jsonEntry other j) = if other = name then j else none := by
  cases j with
  | none => simp [jsonEntry, Json.entry?]
  | some j => simp [jsonEntry, Json.entry?_cons, Json.entry?_nil]

theorem get?_toJson (r : ExecutionRecord) :
    r.toJson.get? "digest" = some (.string r.digest) ∧
    r.toJson.get? "at" = some (.string r.time.text) ∧
    r.toJson.get? "txHash" = r.txHash.map .string ∧
    r.toJson.get? "approvals" = (r.approvals.map fun ids => .array (ids.map .string)) ∧
    r.toJson.get? "note" = r.note.map .string ∧
    r.toJson.get? "onChainDigest" = r.onChainDigest.map .string := by
  simp [toJson, Json.get?, Json.entry?_append, Json.entry?_cons, entry?_jsonEntry]

theorem field?_map {α : Type} {read : Json → Option α} {write : α → Json} {j : Json}
    {name : String} {value : Option α} (h : j.get? name = value.map write)
    (hread : ∀ a, read (write a) = some a) (hnull : ∀ a, write a ≠ .null) :
    field? read j name = some value := by
  cases value with
  | none => simp [field?, h]
  | some a =>
    have hw : Json.nullable? read (write a) = some (some a) := by
      rw [Json.nullable?]
      · rw [hread]
        rfl
      · exact hnull a
    simp [field?, h, hw]

theorem digestOf?_eq_some_iff {entry : Json} {digest : String} :
    digestOf? entry = some digest ↔ ∃ s, (entry.get? "digest").bind Json.string? = some s ∧
      Text.trim s.toList ≠ [] ∧ Digest.normalForm s = digest := by
  unfold digestOf?
  cases (entry.get? "digest").bind Json.string? with
  | none => simp
  | some s =>
    by_cases hs : Text.trim s.toList = []
    · simp [Text.stated?, hs]
    · simp [Text.stated?, hs, Digest.normalForm_trimmed]

theorem normalForm_of_digestOf? {entry : Json} {digest : String}
    (h : digestOf? entry = some digest) : Digest.normalForm digest = digest := by
  obtain ⟨s, _, _, rfl⟩ := digestOf?_eq_some_iff.mp h
  exact Digest.normalForm_normalForm s

theorem digestOf?_toJson {r : ExecutionRecord} (h : r.IsProper) :
    digestOf? r.toJson = some r.digest := by
  apply digestOf?_eq_some_iff.mpr
  refine ⟨r.digest, by rw [(get?_toJson r).1]; simp, ?_, h.digest⟩
  rw [← h.digest]
  exact Digest.trim_normalForm_ne_nil r.digest

theorem digest_of_ofJson? {digest : String} {entry : Json} {r : ExecutionRecord}
    (h : ofJson? digest entry = some r) : r.digest = digest := by
  simp only [ofJson?, Option.bind_eq_bind, Option.bind_eq_some_iff, Option.pure_def,
    Option.some.injEq] at h
  obtain ⟨_, _, _, _, _, _, _, _, _, _, _, _, _, _, rfl⟩ := h
  rfl

theorem isValid_of_ofJson? {digest : String} {entry : Json} {r : ExecutionRecord}
    (h : ofJson? digest entry = some r) : r.time.IsValid := by
  simp only [ofJson?, Option.bind_eq_bind, Option.bind_eq_some_iff, Option.pure_def,
    Option.some.injEq] at h
  obtain ⟨_, _, _, _, time, ht, _, _, _, _, _, _, _, _, rfl⟩ := h
  exact Moment.isValid_of_parse? ht

theorem ofJson?_toJson {r : ExecutionRecord} (h : r.IsProper) :
    ofJson? r.digest r.toJson = some r := by
  obtain ⟨_, hat, htx, happrovals, hnote, hchain⟩ := get?_toJson r
  have hstring : ∀ s, Json.string s ≠ .null := by simp [Json.string]
  have htx' : field? Json.string? r.toJson "txHash" = some r.txHash :=
    field?_map htx Json.string?_string hstring
  have happrovals' : field? Json.strings? r.toJson "approvals" = some r.approvals :=
    field?_map happrovals Json.strings?_array (by simp)
  have hnote' : field? Json.string? r.toJson "note" = some r.note :=
    field?_map hnote Json.string?_string hstring
  have hchain' : field? Json.string? r.toJson "onChainDigest" = some r.onChainDigest :=
    field?_map hchain Json.string?_string hstring
  simp [ofJson?, hat, Moment.parse?_text h.time, htx', happrovals', hnote', hchain']

/-! ### Taking in -/

/-- The record that an entry stands for: in full, or of its digest alone. -/
def ofItem? (entry : Json) : Option ExecutionRecord :=
  (digestOf? entry).map fun digest => (ofJson? digest entry).getD (recovered digest)

theorem digest_of_ofItem? {entry : Json} {r : ExecutionRecord} (h : ofItem? entry = some r) :
    digestOf? entry = some r.digest := by
  unfold ofItem? at h
  obtain ⟨digest, hd, hr⟩ := Option.map_eq_some_iff.mp h
  rw [hd]
  cases hj : ofJson? digest entry with
  | none =>
    rw [hj, Option.getD_none] at hr
    rw [← hr]
    rfl
  | some full =>
    rw [hj, Option.getD_some] at hr
    rw [← hr, digest_of_ofJson? hj]

theorem isProper_of_ofItem? {entry : Json} {r : ExecutionRecord} (h : ofItem? entry = some r) :
    r.IsProper := by
  refine ⟨normalForm_of_digestOf? (digest_of_ofItem? h), ?_⟩
  unfold ofItem? at h
  obtain ⟨digest, _, hr⟩ := Option.map_eq_some_iff.mp h
  cases hj : ofJson? digest entry with
  | none =>
    rw [hj, Option.getD_none] at hr
    rw [← hr]
    exact Moment.isValid_epoch
  | some full =>
    rw [hj, Option.getD_some] at hr
    rw [← hr]
    exact isValid_of_ofJson? hj

theorem records_takeEntries (place : Nat) (loaded : Loaded) (items : List Json) :
    (takeEntries place loaded items).records =
      (items.filterMap ofItem?).foldl addNew loaded.records := by
  induction items generalizing place loaded with
  | nil => rfl
  | cons entry rest ih =>
    cases hd : digestOf? entry with
    | none => simp [takeEntries, hd, ih, ofItem?]
    | some digest => cases hj : ofJson? digest entry <;> simp [takeEntries, hd, hj, ih, ofItem?]

theorem find?_addNew (records : List ExecutionRecord) (r : ExecutionRecord) (digest : String) :
    find? (addNew records r) digest = (find? records digest).or (find? [r] digest) := by
  unfold addNew
  split
  · rename_i h
    by_cases hd : r.digest = digest
    · rw [hd] at h
      obtain ⟨found, hf⟩ := Option.isSome_iff_exists.mp h
      simp [hf]
    · simp [find?, hd]
  · simp [find?, List.find?_append]

theorem find?_foldl_addNew (kept records : List ExecutionRecord) (digest : String) :
    find? (records.foldl addNew kept) digest = (find? kept digest).or (find? records digest) := by
  induction records generalizing kept with
  | nil => simp [find?]
  | cons r rest ih =>
    have hsplit : find? (r :: rest) digest = (find? [r] digest).or (find? rest digest) := by
      rw [find?, ← List.singleton_append, List.find?_append]
      rfl
    rw [List.foldl_cons, ih, find?_addNew, hsplit, Option.or_assoc]

theorem distinct_addNew {records : List ExecutionRecord}
    (h : (records.map (·.digest)).Nodup) (r : ExecutionRecord) :
    ((addNew records r).map (·.digest)).Nodup := by
  unfold addNew
  split
  · exact h
  · rename_i hnone
    have hnot : r.digest ∉ records.map (·.digest) := by
      simpa [find?] using hnone
    rw [List.map_append, List.nodup_append]
    refine ⟨h, by simp, fun a ha b hb hab => hnot ?_⟩
    simp only [List.map_cons, List.map_nil, List.mem_singleton] at hb
    rw [← hb, ← hab]
    exact ha

theorem mem_of_mem_addNew {records : List ExecutionRecord} {r other : ExecutionRecord}
    (h : other ∈ addNew records r) : other ∈ records ∨ other = r := by
  unfold addNew at h
  split at h
  · exact .inl h
  · simpa using h

end ExecutionRecord
end Countersign
