import Countersign.Proofs.Envelope.Textual

/-! The two forms of an envelope agree. What one of them makes of fields, whatever names are missing
or unknown and whatever kind of value a name has, the other makes of the same fields. -/

namespace Countersign.Envelope

/-- A value that stands for itself in both forms. -/
inductive Scalar where
  | text (s : String)
  | natural (n : UInt64)
  | null
  | bool (b : Bool)

/-- Values under names that differ. -/
structure Fields (α : Type) where
  entries : List (String × α)
  distinct : (entries.map Prod.fst).Nodup

/-- A value, or fields one level deeper. -/
inductive Value where
  | scalar (s : Scalar)
  | fields (f : Fields Scalar)

namespace Scalar

def toCbor : Scalar → Cbor
  | text s => .text s
  | natural n => .natural n.toNat
  | null => .null
  | bool b => .bool b

def toJson : Scalar → Json
  | text s => .string s
  | natural n => .natural n.toNat
  | null => .null
  | bool b => .bool b

end Scalar

namespace Fields

variable {α β : Type}

def map (write : α → β) (f : Fields α) : Fields β where
  entries := f.entries.map fun e => (e.1, write e.2)
  distinct := by simpa [Function.comp_def] using f.distinct

def toCbor (f : Fields Cbor) : Cbor := .map (f.entries.map fun e => (.text e.1, e.2))

def toJson (f : Fields Json) : Json := .object (f.entries.map fun e => (Text.utf8 e.1, e.2))

end Fields

namespace Value

def toCbor : Value → Cbor
  | scalar s => s.toCbor
  | fields f => (f.map Scalar.toCbor).toCbor

def toJson : Value → Json
  | scalar s => s.toJson
  | fields f => (f.map Scalar.toJson).toJson

end Value

/-! ### Single values -/

theorem binaryText?_toCbor (s : Scalar) :
    Metadata.binaryText? s.toCbor = Json.nullable? Json.string? s.toJson := by
  cases s with
  | text s =>
    show some (some s) = ((Json.string s).string?).map some
    rw [Json.string?_string]
    rfl
  | _ => rfl

theorem metadata_agrees (v : Value) : binary.metadata v.toCbor = textual.metadata v.toJson := by
  cases v with
  | scalar s => cases s <;> rfl
  | fields f =>
    -- one takes the entries in one by one and the other looks them up: compared by what they accept
    let entries := (f.map Scalar.toCbor).entries.map fun e => (Cbor.text e.1, e.2)
    have hsame : (Metadata.setFields [] {} entries).toOption =
        Metadata.ofJson? (f.map Scalar.toJson).toJson := by
      ext m
      have hd := (f.map Scalar.toCbor).distinct
      rw [toOption_eq_some_iff, Metadata.setFields_eq_ok_iff, Cbor.named_text, Fields.toJson,
        Metadata.ofJson?_eq_some_iff (f.map Scalar.toJson).distinct, Fields.map, Fields.map,
        Metadata.isReadFrom_map, Metadata.isReadFrom_map]
      simp only [binaryText?_toCbor]
      exact and_iff_right hd
    show ((Metadata.setFields [] {} entries).map some).toOption =
      (Metadata.ofJson? (f.map Scalar.toJson).toJson).map some
    rw [← hsame]
    cases Metadata.setFields [] {} entries <;> rfl

theorem parameterSet_agrees (v : Value) :
    binary.parameterSet v.toCbor = textual.parameterSet v.toJson := by
  match v with
  | .scalar (.natural n) =>
    have hn : n.toNat < 1 <<< 64 := n.toNat_lt
    show ((unsignedOf "parameterSet" (.natural n.toNat)).bind setOf).toOption =
      (Json.below? 256 (.natural n.toNat)).map UInt8.ofNat
    rw [unsignedOf, if_pos hn]
    by_cases hs : n.toNat < 256
    · simp [Except.bind, setOf, Json.below?, hs]
    · simp [Except.bind, setOf, Json.below?, hs, Except.toOption]
  | .scalar (.text _) => rfl
  | .scalar .null => rfl
  | .scalar (.bool _) => rfl
  | .fields _ => rfl

theorem version_agrees (v : Value) : binary.version v.toCbor = textual.version v.toJson := by
  match v with
  | .scalar (.natural n) =>
    have hn : n.toNat < 1 <<< 64 := n.toNat_lt
    show (unsignedOf "version" (.natural n.toNat)).toOption =
      Json.below? (1 <<< 64) (.natural n.toNat)
    rw [unsignedOf, if_pos hn, Json.below?, if_pos hn]
    rfl
  | .scalar (.text _) => rfl
  | .scalar .null => rfl
  | .scalar (.bool _) => rfl
  | .fields _ => rfl

theorem bytes_agree (field : String) (v : Value) : (bytesOf field v.toCbor).toOption =
    v.toJson.string?.bind fun s => (bytesOfText field s).toOption := by
  match v with
  | .scalar (.text s) =>
    show (bytesOfText field s).toOption = (Json.string s).string?.bind _
    rw [Json.string?_string, Option.bind_some]
  | .scalar (.natural _) => rfl
  | .scalar .null => rfl
  | .scalar (.bool _) => rfl
  | .fields _ => rfl

theorem text_agrees (field : String) (v : Value) :
    (textOf field v.toCbor).toOption = v.toJson.string? := by
  match v with
  | .scalar (.text s) => exact (Json.string?_string s).symm
  | .scalar (.natural _) => rfl
  | .scalar .null => rfl
  | .scalar (.bool _) => rfl
  | .fields _ => rfl

theorem digestOf_toCbor (v : Value) : digestOf v.toCbor = textOf "digest" v.toCbor := by
  match v with
  | .scalar (.text _) => rfl
  | .scalar (.natural _) => rfl
  | .scalar .null => rfl
  | .scalar (.bool _) => rfl
  | .fields _ => rfl

theorem readers_agree : binary.comap Value.toCbor = textual.comap Value.toJson := by
  have hdigest (v : Value) : binary.digest v.toCbor = textual.digest v.toJson :=
    (congrArg Except.toOption (digestOf_toCbor v)).trans (text_agrees "digest" v)
  simp only [FieldReaders.comap, FieldReaders.mk.injEq]
  exact ⟨funext version_agrees, funext (text_agrees "algorithm"), funext parameterSet_agrees,
    funext hdigest, funext (bytes_agree "publicKey"), funext (bytes_agree "signature"),
    funext metadata_agrees⟩

/-! ### All fields -/

namespace Fields

def asCbor (f : Fields Value) : Cbor := (f.map Value.toCbor).toCbor

def asJson (f : Fields Value) : Json := (f.map Value.toJson).toJson

end Fields

variable {fields : Fields Value}

theorem ofCbor_fields {e : Envelope} :
    ofCbor fields.asCbor = .ok e ↔ e.IsReadFrom (binary.comap Value.toCbor) fields.entries := by
  have hd := (fields.map Value.toCbor).distinct
  rw [Fields.asCbor, Fields.toCbor, ofCbor_eq_ok_iff, Cbor.named_text, and_iff_right hd, Fields.map,
    isReadFrom_map]

theorem decodeTextual_fields {text : Bytes} (h : Json.read? text = some fields.asJson)
    {e : Envelope} : decodeTextual text = .ok e ↔
      e.IsReadFrom (textual.comap Value.toJson) fields.entries := by
  rw [decodeTextual_object (fields.map Value.toJson).distinct h, Fields.map, isReadFrom_map]

theorem decode_fields {bytes text : Bytes} (hb : Cbor.read? bytes = some fields.asCbor)
    (ht : Json.read? text = some fields.asJson) :
    (decodeBinary bytes).toOption = (decodeTextual text).toOption := by
  ext e
  rw [toOption_eq_some_iff, toOption_eq_some_iff, decodeTextual_fields ht, ← readers_agree,
    ← ofCbor_fields, decodeBinary, hb]

theorem Scalar.isWritten (s : Scalar) : s.toJson.isPlain = true ∧ s.toJson.legible = true := by
  cases s with
  | text s => exact ⟨rfl, Json.legible_string s⟩
  | _ => exact ⟨rfl, rfl⟩

theorem Fields.isWritten {α : Type} {write : α → Json}
    (h : ∀ a, (write a).isPlain = true ∧ (write a).legible = true) (f : Fields α) :
    (f.map write).toJson.isPlain = true ∧ (f.map write).toJson.legible = true := by
  have hall : ∀ e ∈ (f.map write).entries, e.2.isPlain = true ∧ e.2.legible = true := by
    intro e he
    obtain ⟨field, _, rfl⟩ := List.mem_map.mp he
    exact h field.2
  exact ⟨Json.isPlain_object fun e he => (hall e he).1,
    Json.legible_object fun e he => (hall e he).2⟩

theorem read?_asJson : Json.read? (fields.asJson.pretty 0) = some fields.asJson := by
  have hvalue : ∀ v : Value, v.toJson.isPlain = true ∧ v.toJson.legible = true := by
    intro v
    cases v with
    | scalar s => exact s.isWritten
    | fields f => exact f.isWritten Scalar.isWritten
  obtain ⟨hplain, hlegible⟩ := fields.isWritten hvalue
  obtain ⟨text, _, htext, hread⟩ := Json.exists_text_pretty 0 hplain hlegible
  rw [htext] at hread
  exact hread

/-- The two forms of the same fields, however they are written, are both refused or are read as the
same envelope. -/
theorem forms_agree_on_fields (fields : Fields Value) :
    (∀ bytes text, Cbor.read? bytes = some fields.asCbor → Json.read? text = some fields.asJson →
      (decodeBinary bytes).toOption = (decodeTextual text).toOption) ∧
    (fields.asCbor.Fits 256 → (decodeBinary fields.asCbor.encode).toOption =
      (decodeTextual (fields.asJson.pretty 0)).toOption) :=
  ⟨fun _ _ => decode_fields, fun h => decode_fields (Cbor.read?_encode h) read?_asJson⟩

/-- A blank key, a note that is `null` and names that are unknown. -/
theorem unknown_names_are_passed_over :
    let metadata : Fields Scalar := ⟨[("note", .null), ("extra", .bool true)], by decide⟩
    let fields : Fields Value := ⟨[("extra", .scalar .null), ("publicKey", .scalar (.text " ")),
      ("metadata", .fields metadata), ("parameterSet", .scalar (.natural 255)),
      ("version", .scalar (.natural 1)), ("algorithm", .scalar (.text "dilithium"))], by decide⟩
    fields.asCbor.Fits 256 ∧
    (decodeBinary fields.asCbor.encode).toOption = some ⟨255, "", [], [], some {}⟩ ∧
    (decodeBinary fields.asCbor.encode).toOption =
      (decodeTextual (fields.asJson.pretty 0)).toOption := by
  intro metadata fields
  have hkeys : ∀ key ∈ ["extra", "publicKey", "metadata", "parameterSet", "version", "algorithm",
      "note", " ", "dilithium"], (Text.utf8 key).length < 2 ^ 64 := by decide
  have hinner : (metadata.map Scalar.toCbor).toCbor.Fits 255 :=
    ⟨by decide, by decide, hkeys "note" (by simp), trivial, hkeys "extra" (by simp), trivial,
      trivial⟩
  have hfits : fields.asCbor.Fits 256 := by
    refine ⟨by decide, by decide, hkeys "extra" (by simp), trivial, hkeys "publicKey" (by simp),
      hkeys " " (by simp), hkeys "metadata" (by simp), hinner, hkeys "parameterSet" (by simp), ?_,
      hkeys "version" (by simp), ?_, hkeys "algorithm" (by simp), hkeys "dilithium" (by simp),
      trivial⟩
    · show 255 < 2 ^ 64
      decide
    · show 1 < 2 ^ 64
      decide
  refine ⟨hfits, ?_, (forms_agree_on_fields fields).2 hfits⟩
  rw [decodeBinary, Cbor.read?_encode hfits]
  decide

end Countersign.Envelope
