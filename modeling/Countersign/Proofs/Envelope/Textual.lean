import Mathlib.Data.Option.Basic
import Countersign.Envelope.Textual
import Countersign.Proofs.Envelope.Binary
import Countersign.Proofs.Json.Document
import Countersign.Proofs.Json.Record
import Countersign.Proofs.Json.RoundTrip
import Countersign.Proofs.Key.Text

/-! The textual form of an envelope is read back as the envelope, as its binary form is, whatever
texts and byte strings it holds. -/

namespace Countersign

section

variable {α : Type} {fields : List (String × Json)} {given : Json.Given} {name : String}
  {place : Nat} (h : given.field? place = fields.lookup name)
include h

theorem textOr_eq_entryOr : Json.textOr given place = entryOr fields name "" Json.string? := by
  rw [Json.textOr, h, entryOr]
  cases fields.lookup name <;> rfl

theorem optional?_eq_entryOr (read : Json → Option α) :
    Json.optional? read given place = entryOr fields name none (Json.nullable? read) := by
  rw [Json.optional?, h, entryOr]
  cases fields.lookup name <;> rfl

end

variable {fields : List (String × Json)}

namespace Metadata

theorem ofJson?_eq_some_iff (hd : (fields.map Prod.fst).Nodup) {m : Metadata} :
    ofJson? (.object (fields.map fun e => (Text.utf8 e.1, e.2))) = some m ↔
      m.IsReadFrom (Json.nullable? Json.string?) fields := by
  obtain ⟨hwhole, hfield⟩ := Json.Form.given_distinct (show form.closed = false from rfl) hd
  have hg := hfield "guardianId" 0 rfl
  have hi := hfield "issuedAt" 1 rfl
  have hn := hfield "note" 2 rfl
  simp only [ofJson?, Json.document, hwhole, guard_true, optional?_eq_entryOr hg,
    optional?_eq_entryOr hi, optional?_eq_entryOr hn, Option.bind_eq_bind, Option.bind_eq_some_iff,
    Option.pure_def, Option.some.injEq]
  constructor
  · rintro ⟨_, _, guardianId, hg, issuedAt, hi, note, hn, rfl⟩
    exact ⟨hg, hi, hn⟩
  · rintro ⟨hg, hi, hn⟩
    exact ⟨(), trivial, m.guardianId, hg, m.issuedAt, hi, m.note, hn, rfl⟩

end Metadata

namespace Envelope

/-- How the textual form gives the fields. -/
def textual : FieldReaders Json where
  version := Json.below? (1 <<< 64)
  algorithm := Json.string?
  parameterSet j := (j.below? 256).map UInt8.ofNat
  digest := Json.string?
  publicKey j := j.string?.bind fun s => (bytesOfText "publicKey" s).toOption
  signature j := j.string?.bind fun s => (bytesOfText "signature" s).toOption
  metadata := Json.nullable? Metadata.ofJson?

theorem ofJson?_eq_some_iff (hd : (fields.map Prod.fst).Nodup) {w : Written} :
    Written.ofJson? (.fields (fields.map fun e => (Text.utf8 e.1, e.2)) true) = some w ↔
      (fields.lookup "version").bind textual.version = some w.version ∧
      (fields.lookup "algorithm").bind textual.algorithm = some w.algorithm ∧
      (fields.lookup "parameterSet").bind textual.parameterSet = some w.parameterSet ∧
      entryOr fields "digest" "" textual.digest = some w.digest ∧
      entryOr fields "publicKey" "" Json.string? = some w.publicKey ∧
      entryOr fields "signature" "" Json.string? = some w.signature ∧
      entryOr fields "metadata" none textual.metadata = some w.metadata := by
  obtain ⟨hwhole, hfield⟩ := Json.Form.given_distinct (show form.closed = false from rfl) hd
  have hv := hfield "version" 0 rfl
  have ha := hfield "algorithm" 1 rfl
  have hp := hfield "parameterSet" 2 rfl
  have hdigest := hfield "digest" 3 rfl
  have hk := hfield "publicKey" 4 rfl
  have hs := hfield "signature" 5 rfl
  have hm := hfield "metadata" 6 rfl
  simp only [Written.ofJson?, hwhole, guard_true, hv, hp, Json.needed?, ha,
    textOr_eq_entryOr hdigest, textOr_eq_entryOr hk, textOr_eq_entryOr hs, optional?_eq_entryOr hm,
    textual, Option.bind_eq_bind, Option.pure_def, Option.bind_some, Option.bind_eq_some_iff,
    Option.map_eq_some_iff, Option.some.injEq]
  constructor
  · rintro ⟨v, hv, version, hversion, algorithm, ha, p, hp, set, hset, digest, hdigest, key, hkey,
      signature, hsignature, metadata, hmetadata, rfl⟩
    exact ⟨⟨v, hv, hversion⟩, ha, ⟨p, hp, set, hset, rfl⟩, hdigest, hkey, hsignature, hmetadata⟩
  · rintro ⟨⟨v, hv, hversion⟩, ha, ⟨p, hp, set, hset, hw⟩, hdigest, hkey, hsignature, hmetadata⟩
    refine ⟨v, hv, w.version, hversion, w.algorithm, ha, p, hp, set, hset, w.digest, hdigest,
      w.publicKey, hkey, w.signature, hsignature, w.metadata, hmetadata, ?_⟩
    rw [hw]

theorem decodeTextual_eq_ok_iff {bytes : Bytes} {e : Envelope} :
    decodeTextual bytes = .ok e ↔ ∃ w, Written.ofJson? (Json.readDocument bytes) = some w ∧
      w.version = version ∧ w.algorithm = algorithm ∧
      bytesOfText "publicKey" w.publicKey = .ok e.publicKey ∧
      bytesOfText "signature" w.signature = .ok e.signature ∧
      w.parameterSet = e.parameterSet ∧ w.digest = e.digest ∧ w.metadata = e.metadata := by
  unfold decodeTextual
  cases Written.ofJson? (Json.readDocument bytes) with
  | none => simp
  | some w =>
    show (checkLiterals (some w.version) (some w.algorithm)).bind (fun _ =>
      (bytesOfText "publicKey" w.publicKey).bind fun publicKey =>
      (bytesOfText "signature" w.signature).bind fun signature =>
      .ok ⟨w.parameterSet, w.digest, publicKey, signature, w.metadata⟩) = .ok e ↔ _
    cases e
    simp [bind_eq_ok_iff, checkLiterals_eq_ok_iff, and_assoc]

theorem entryOr_bytesOfText {field : String} {b : Bytes} :
    entryOr fields field [] (fun j => j.string?.bind fun s => (bytesOfText field s).toOption) =
        some b ↔
      ∃ s, entryOr fields field "" Json.string? = some s ∧ bytesOfText field s = .ok b := by
  have hempty : bytesOfText field "" = .ok [] := rfl
  unfold entryOr
  cases fields.lookup field with
  | none => simp [hempty]
  | some j => simp [Option.bind_eq_some_iff]

theorem whole_of_ofJson? {document : Json.Document} {w : Written}
    (h : Written.ofJson? document = some w) : (form.given document).whole = true := by
  obtain ⟨_, hguard, _⟩ := Option.bind_eq_some_iff.mp h
  simpa using hguard

theorem exists_read?_of_decodeTextual {bytes : Bytes} {e : Envelope}
    (h : decodeTextual bytes = .ok e) :
    ∃ j, j.isContainer = true ∧ Json.read? bytes = some j := by
  obtain ⟨w, hw, _⟩ := decodeTextual_eq_ok_iff.mp h
  obtain ⟨j, hj, hdocument⟩ := Json.Form.exists_container (whole_of_ofJson? hw)
  exact ⟨j, hj, (Json.readDocument_eq_document_iff hj).mp hdocument⟩

/-- The value that a text consists of is all that matters. -/
theorem decodeTextual_congr {bytes other : Bytes} {j : Json} (hj : j.isContainer = true)
    (h : Json.read? bytes = some j) (ho : Json.read? other = some j) :
    decodeTextual bytes = decodeTextual other := by
  rw [decodeTextual, Json.readDocument_eq_document hj h, decodeTextual,
    Json.readDocument_eq_document hj ho]

/-- Reading an object with distinct names. -/
theorem decodeTextual_object (hd : (fields.map Prod.fst).Nodup) {bytes : Bytes} {e : Envelope}
    (h : Json.read? bytes = some (.object (fields.map fun e => (Text.utf8 e.1, e.2)))) :
    decodeTextual bytes = .ok e ↔ e.IsReadFrom textual fields := by
  rw [decodeTextual_eq_ok_iff, Json.readDocument_eq_document rfl h]
  simp only [Json.document, ofJson?_eq_some_iff hd]
  constructor
  · rintro ⟨w, ⟨hv, ha, hp, hdigest, hk, hs, hm⟩, hv', ha', hk', hs', hp', hdigest', hm'⟩
    exact ⟨hv' ▸ hv, ha' ▸ ha, hp' ▸ hp, hdigest' ▸ hdigest, entryOr_bytesOfText.mpr ⟨_, hk, hk'⟩,
      entryOr_bytesOfText.mpr ⟨_, hs, hs'⟩, hm' ▸ hm⟩
  · rintro ⟨hv, ha, hp, hdigest, hk, hs, hm⟩
    obtain ⟨publicKey, hk, hk'⟩ := entryOr_bytesOfText.mp hk
    obtain ⟨signature, hs, hs'⟩ := entryOr_bytesOfText.mp hs
    exact ⟨⟨version, algorithm, e.parameterSet, e.digest, publicKey, signature, e.metadata⟩,
      ⟨hv, ha, hp, hdigest, hk, hs, hm⟩, rfl, rfl, hk', hs', rfl, rfl, rfl⟩

end Envelope

/-! ### What is written -/

namespace Metadata

theorem toJson_eq (m : Metadata) :
    m.toJson = .object ((m.entries .string).map fun e => (Text.utf8 e.1, e.2)) := by
  simp [toJson, jsonEntry, entries, Function.comp_def]

theorem ofJson?_toJson (m : Metadata) : ofJson? m.toJson = some m := by
  rw [toJson_eq, ofJson?_eq_some_iff (distinct_entries _ m)]
  exact isReadFrom_entries Json.nullable?_string m

theorem isPlain_toJson (m : Metadata) : m.toJson.isPlain = true := by
  rw [toJson_eq]
  apply Json.isPlain_object
  intro e he
  obtain ⟨s, hs⟩ := exists_of_mem_entries he
  rw [hs]
  rfl

theorem legible_toJson (m : Metadata) : m.toJson.legible = true := by
  rw [toJson_eq]
  apply Json.legible_object
  intro e he
  obtain ⟨s, hs⟩ := exists_of_mem_entries he
  rw [hs]
  exact Json.legible_string s

end Metadata

namespace Envelope

def textualWriters : FieldWriters Json :=
  ⟨.natural, .string, fun b => .string (Hex.prefixed b), Metadata.toJson⟩

theorem toJson_eq (e : Envelope) :
    e.toJson = .object ((e.entries textualWriters).map fun e => (Text.utf8 e.1, e.2)) := by
  simp [toJson, entries, textualWriters]

theorem undoes_textual : textual.Undoes textualWriters where
  version := rfl
  algorithm := Json.string?_string algorithm
  parameterSet n := by
    show (Json.below? 256 (.natural n.toNat)).map UInt8.ofNat = some n
    simp [Json.below?, n.toNat_lt]
  digest := Json.string?_string
  publicKey b := by
    show (Json.string _).string?.bind _ = _
    rw [Json.string?_string, Option.bind_some, bytesOfText_prefixed]
    rfl
  signature b := by
    show (Json.string _).string?.bind _ = _
    rw [Json.string?_string, Option.bind_some, bytesOfText_prefixed]
    rfl
  metadata m := by
    show (Metadata.ofJson? m.toJson).map some = _
    rw [Metadata.ofJson?_toJson]
    rfl

theorem isPlain_toJson (e : Envelope) : e.toJson.isPlain = true := by
  rw [toJson_eq]
  apply Json.isPlain_object
  intro f hf
  rcases exists_of_mem_entries hf with ⟨n, h⟩ | ⟨s, h⟩ | ⟨b, h⟩ | ⟨m, h⟩ <;> rw [h]
  · rfl
  · rfl
  · rfl
  · exact m.isPlain_toJson

theorem legible_toJson (e : Envelope) : e.toJson.legible = true := by
  rw [toJson_eq]
  apply Json.legible_object
  intro f hf
  rcases exists_of_mem_entries hf with ⟨n, h⟩ | ⟨s, h⟩ | ⟨b, h⟩ | ⟨m, h⟩ <;> rw [h]
  · rfl
  · exact Json.legible_string s
  · exact Json.legible_string _
  · exact m.legible_toJson

theorem exists_text_encodeTextual (e : Envelope) : ∃ text : String,
    Text.utf8 text = e.encodeTextual ∧ Json.read? e.encodeTextual = some e.toJson := by
  obtain ⟨text, _, htext, hread⟩ := Json.exists_text_pretty 0 e.isPlain_toJson e.legible_toJson
  rw [htext] at hread
  exact ⟨text, htext, hread⟩

theorem decodeTextual_encodeTextual (e : Envelope) : decodeTextual e.encodeTextual = .ok e := by
  obtain ⟨_, _, hread⟩ := e.exists_text_encodeTextual
  rw [toJson_eq] at hread
  rw [decodeTextual_object (distinct_entries _ e) hread]
  exact isReadFrom_entries undoes_textual e

/-- What is written for an envelope is a text, which is read back as the envelope, just as the
binary form is. -/
theorem textual_form_is_read_back (e : Envelope) :
    (∃ text : String, Text.utf8 text = e.encodeTextual) ∧
    decodeTextual e.encodeTextual = .ok e ∧
    (e.IsStorable → decodeTextual e.encodeTextual = decodeBinary e.encodeBinary) := by
  obtain ⟨text, htext, _⟩ := e.exists_text_encodeTextual
  have hread := decodeTextual_encodeTextual e
  exact ⟨⟨text, htext⟩, hread, fun h => hread.trans (decodeBinary_encodeBinary h).symm⟩

/-- A digest that has to be escaped, no key, and a note that is empty. -/
theorem escaped_digest_is_read_back :
    let e : Envelope := ⟨3, "\"\\\u0000é", [], [0, 255], some ⟨none, none, some ""⟩⟩
    e.IsStorable ∧ (∃ text : String, Text.utf8 text = e.encodeTextual) ∧
    decodeTextual e.encodeTextual = .ok e ∧
    decodeTextual e.encodeTextual = decodeBinary e.encodeBinary := by
  intro e
  have hnote : (Text.utf8 "").length < 2 ^ 64 := by decide
  have hs : e.IsStorable :=
    ⟨by decide, by decide, by decide, by simpa [e, Metadata.texts] using hnote⟩
  obtain ⟨htext, hread, hsame⟩ := textual_form_is_read_back e
  exact ⟨hs, htext, hread, hsame hs⟩

end Envelope
end Countersign
