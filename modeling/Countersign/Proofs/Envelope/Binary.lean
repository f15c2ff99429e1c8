import Countersign.Proofs.Cbor.RoundTrip
import Countersign.Proofs.Envelope.Entries

/-! The binary form of an envelope is read back as the envelope, and is written in definite lengths
with the shortest heads. -/

namespace Countersign

namespace Metadata

/-- The texts that are given. -/
def texts (m : Metadata) : List String :=
  m.guardianId.toList ++ m.issuedAt.toList ++ m.note.toList

theorem toCbor_eq (m : Metadata) :
    m.toCbor = .map ((m.entries .text).map fun e => (.text e.1, e.2)) := by
  simp [toCbor, entry, entries, Function.comp_def]

theorem fits_toCbor {room : Nat} {m : Metadata}
    (h : ∀ s ∈ m.texts, (Text.utf8 s).length < 2 ^ 64) : m.toCbor.Fits (room + 1) := by
  rw [toCbor_eq]
  have hkeys : ∀ key ∈ ["guardianId", "issuedAt", "note"], (Text.utf8 key).length < 2 ^ 64 := by
    decide
  have hlength : (m.entries Cbor.text).length ≤ 3 := by
    obtain ⟨guardianId, issuedAt, note⟩ := m
    cases guardianId <;> cases issuedAt <;> cases note <;> simp [entries]
  refine ⟨Nat.succ_pos room, by rw [List.length_map]; omega, Cbor.fitEntries_text ?_⟩
  intro e he
  simp only [entries, List.mem_append, List.mem_map, Option.mem_toList] at he
  simp only [texts, List.mem_append, Option.mem_toList] at h
  rcases he with (⟨s, hs, rfl⟩ | ⟨s, hs, rfl⟩) | ⟨s, hs, rfl⟩
  · exact ⟨hkeys _ (by simp), h s (.inl (.inl hs))⟩
  · exact ⟨hkeys _ (by simp), h s (.inl (.inr hs))⟩
  · exact ⟨hkeys _ (by simp), h s (.inr hs)⟩

theorem ofCbor_toCbor (m : Metadata) : ofCbor m.toCbor = .ok (some m) := by
  have hfields : setFields [] {} ((m.entries .text).map fun e => (.text e.1, e.2)) = .ok m := by
    rw [setFields_eq_ok_iff, Cbor.named_text]
    have hread : ∀ s, binaryText? (.text s) = some (some s) := fun _ => rfl
    exact ⟨distinct_entries _ m, isReadFrom_entries hread m⟩
  rw [toCbor_eq, ofCbor, hfields]
  rfl

end Metadata

namespace Envelope

def binaryWriters : FieldWriters Cbor := ⟨.natural, .text, .octets, Metadata.toCbor⟩

theorem toCbor_eq (e : Envelope) :
    e.toCbor = .map ((e.entries binaryWriters).map fun e => (.text e.1, e.2)) := by
  simp [toCbor, entries, binaryWriters]

theorem undoes_binary : binary.Undoes binaryWriters where
  version := rfl
  algorithm := rfl
  parameterSet n := by
    have hlt := n.toNat_lt
    have hsmall : n.toNat < 1 <<< 64 := by omega
    show ((unsignedOf "parameterSet" (.natural n.toNat)).bind setOf).toOption = some n
    rw [unsignedOf, if_pos hsmall]
    show (setOf n.toNat).toOption = some n
    rw [setOf, if_pos hlt, UInt8.ofNat_toNat]
    rfl
  digest _ := rfl
  publicKey _ := rfl
  signature _ := rfl
  metadata m := toOption_eq_some_iff.mpr (Metadata.ofCbor_toCbor m)

theorem ofCbor_toCbor (e : Envelope) : ofCbor e.toCbor = .ok e := by
  rw [toCbor_eq, ofCbor_eq_ok_iff, Cbor.named_text]
  exact ⟨distinct_entries _ e, isReadFrom_entries undoes_binary e⟩

/-- Whether the texts and byte strings of the envelope have a place in memory, where the length of
each is a number of eight bytes. -/
structure IsStorable (e : Envelope) : Prop where
  digest : (Text.utf8 e.digest).length < 2 ^ 64
  publicKey : e.publicKey.length < 2 ^ 64
  signature : e.signature.length < 2 ^ 64
  metadata : ∀ m ∈ e.metadata, ∀ s ∈ m.texts, (Text.utf8 s).length < 2 ^ 64

variable {e : Envelope}

theorem fits_toCbor (h : e.IsStorable) : e.toCbor.Fits 256 := by
  rw [toCbor_eq]
  have hkeys : ∀ key ∈ ["version", "algorithm", "parameterSet", "digest", "publicKey", "signature",
      "metadata"], (Text.utf8 key).length < 2 ^ 64 := by decide
  have hset := e.parameterSet.toNat_lt
  have hlength : (e.entries binaryWriters).length ≤ 7 := by
    cases hm : e.metadata <;> simp [entries, hm]
  refine ⟨by decide, by rw [List.length_map]; omega, Cbor.fitEntries_text ?_⟩
  intro field hf
  simp only [entries, List.mem_append, List.mem_cons, List.not_mem_nil, or_false, List.mem_map,
    Option.mem_toList] at hf
  rcases hf with (rfl | rfl | rfl | rfl | rfl | rfl) | ⟨m, hm, rfl⟩
  · exact ⟨hkeys _ (by simp), show version < 2 ^ 64 by decide⟩
  · exact ⟨hkeys _ (by simp), show (Text.utf8 algorithm).length < 2 ^ 64 by decide⟩
  · exact ⟨hkeys _ (by simp), show e.parameterSet.toNat < 2 ^ 64 by omega⟩
  · exact ⟨hkeys _ (by simp), h.digest⟩
  · exact ⟨hkeys _ (by simp), h.publicKey⟩
  · exact ⟨hkeys _ (by simp), h.signature⟩
  · exact ⟨hkeys _ (by simp), Metadata.fits_toCbor (h.metadata m hm)⟩

theorem decodeBinary_eq_ok_iff {bytes : Bytes} : decodeBinary bytes = .ok e ↔
    ∃ entries, Cbor.read? bytes = some (.map entries) ∧ ofCbor (.map entries) = .ok e := by
  unfold decodeBinary
  cases Cbor.read? bytes with
  | none => simp
  | some item => cases item <;> simp [ofCbor]

theorem decodeBinary_encodeBinary (h : e.IsStorable) : decodeBinary e.encodeBinary = .ok e := by
  rw [decodeBinary, encodeBinary, Cbor.read?_encode (fits_toCbor h)]
  exact ofCbor_toCbor e

/-- What is written for an envelope is read back as the envelope, so that no other envelope is
written alike; each item of it has a definite length and the shortest head. -/
theorem binary_form_is_read_back (h : e.IsStorable) :
    decodeBinary e.encodeBinary = .ok e ∧
    (∀ other : Envelope, other.IsStorable → other.encodeBinary = e.encodeBinary → other = e) ∧
    Cbor.Written e.toCbor e.encodeBinary := by
  have hread := decodeBinary_encodeBinary h
  refine ⟨hread, ?_, Cbor.written_encode e.toCbor (fits_toCbor h)⟩
  intro other ho hsame
  have hother := decodeBinary_encodeBinary ho
  rw [hsame, hread] at hother
  exact (Except.ok.inj hother).symm

/-- No key, a signature whose length takes two bytes, and metadata that say nothing. -/
theorem empty_metadata_is_read_back :
    let e : Envelope := ⟨255, "é
", [], List.replicate 300 7, some {}⟩
    e.IsStorable ∧ decodeBinary e.encodeBinary = .ok e ∧
    (∀ other : Envelope, other.IsStorable → other.encodeBinary = e.encodeBinary → other = e) ∧
    Cbor.Written e.toCbor e.encodeBinary := by
  intro e
  have hsignature : e.signature.length = 300 := List.length_replicate
  have hs : e.IsStorable := ⟨by decide, by decide, by omega, by simp [e, Metadata.texts]⟩
  exact ⟨hs, binary_form_is_read_back hs⟩

end Envelope
end Countersign
