import Countersign.Envelope.Inbox
import Countersign.Proofs.Envelope.Binary
import Countersign.Proofs.Json.Document

/-! No file is an envelope in both formats. The first byte of a map of CBOR starts no text in which
JSON holds an object or an array, be it behind blanks. -/

namespace Countersign

namespace Cbor

variable {bytes rest : Bytes} {entries : List (Cbor × Cbor)}

theorem bigInteger?_ne_map {tag : Nat} {content : Bytes} :
    bigInteger? tag content ≠ some (map entries) := by
  unfold bigInteger?
  dsimp only
  split_ifs <;> exact nofun

theorem readSimple_ne_map {argument : Argument} :
    readSimple argument bytes ≠ some (map entries, rest) := by
  unfold readSimple
  split
  · intro h
    cases h
  · split_ifs <;> intro h <;> cases h

/-- The kind in the first byte of a map. -/
theorem Spells.exists_first_of_map {room : Nat} (h : Spells room (Cbor.map entries) bytes) :
    ∃ b more, bytes = b :: more ∧ b.toNat / 32 = 5 := by
  cases h with
  | map hh _ =>
    obtain ⟨b, more, rfl, hk⟩ := hh.exists_first
    exact ⟨b, _, rfl, hk.symm⟩
  | openMap hh _ =>
    obtain ⟨b, more, rfl, hk⟩ := hh.exists_first
    exact ⟨b, _, rfl, hk.symm⟩
  | integer _ _ _ _ hb => exact absurd hb bigInteger?_ne_map
  | simple _ hs => exact absurd hs readSimple_ne_map

end Cbor

namespace Envelope

/-- The first byte of what is read as the binary form says that a map follows. -/
theorem first_of_decodeBinary {content : Bytes} {e : Envelope} (h : decodeBinary content = .ok e) :
    ∃ b more, content = b :: more ∧ b.toNat / 32 = 5 := by
  obtain ⟨entries, hread, _⟩ := decodeBinary_eq_ok_iff.mp h
  obtain ⟨own, rest, rfl, hown⟩ := Cbor.read?_eq_some_iff.mp hread
  obtain ⟨b, more, rfl, hb⟩ := hown.exists_first_of_map
  exact ⟨b, more ++ rest, rfl, hb⟩

/-- The first byte of what is read as the textual form is a blank or an opening bracket. -/
theorem first_of_decodeTextual {content : Bytes} {e : Envelope}
    (h : decodeTextual content = .ok e) :
    ∃ b more, content = b :: more ∧ (Json.isSpace b = true ∨ b = 0x7b ∨ b = 0x5b) := by
  cases content with
  | nil => exact nomatch h
  | cons b more =>
    refine ⟨b, more, rfl, ?_⟩
    by_contra hb
    simp only [not_or, Bool.not_eq_true] at hb
    obtain ⟨hspace, hbrace, hbracket⟩ := hb
    have hs : Json.skipSpace (b :: more) = b :: more := Json.skipSpace_cons hspace more
    have hdocument := Json.single_or_nothing (b :: more)
      (fun inner heq => hbrace (List.cons.inj (hs.symm.trans heq)).1)
      (fun inner heq => hbracket (List.cons.inj (hs.symm.trans heq)).1)
    unfold decodeTextual at h
    rcases hdocument with ⟨j, whole, hd⟩ | hd <;> rw [hd] at h <;> exact nomatch h

theorem not_binary_and_textual {b : UInt8} {s t : Bytes} {e other : Envelope}
    (hb : decodeBinary (b :: s) = .ok e) : decodeTextual (b :: t) ≠ .ok other := by
  intro ht
  obtain ⟨_, _, heq, hkind⟩ := first_of_decodeBinary hb
  obtain ⟨_, _, hsame, hfirst⟩ := first_of_decodeTextual ht
  cases heq
  cases hsame
  simp only [Json.isSpace, Bool.or_eq_true, beq_iff_eq] at hfirst
  rcases hfirst with (((rfl | rfl) | rfl) | rfl) | rfl | rfl <;> exact absurd hkind (by decide)

theorem not_both (content : Bytes) :
    ¬ ∃ e other, decodeBinary content = .ok e ∧ decodeTextual content = .ok other := by
  rintro ⟨e, other, hb, ht⟩
  obtain ⟨b, more, rfl, _⟩ := first_of_decodeBinary hb
  exact not_binary_and_textual hb ht

/-- What reads an envelope of the format. -/
def Format.decode : Format → Bytes → Except Fault Envelope
  | cbor => decodeBinary
  | json => decodeTextual

theorem Format.eq_of_first {format other : Format} {b : UInt8} {s t : Bytes} {e f : Envelope}
    (h : format.decode (b :: s) = .ok e) (ho : other.decode (b :: t) = .ok f) : format = other := by
  cases format with
  | cbor =>
    cases other with
    | cbor => rfl
    | json => exact absurd ho (not_binary_and_textual h)
  | json =>
    cases other with
    | cbor => exact absurd h (not_binary_and_textual ho)
    | json => rfl

theorem Format.decode_nil (format : Format) : ∃ fault, format.decode [] = .error fault := by
  cases format with
  | cbor => exact ⟨.notCbor, by decide +kernel⟩
  | json => exact ⟨.notJson, by decide +kernel⟩

/-- The envelope that the content is read as by the first of the formats that reads it. -/
def firstOf? (formats : List Format) (content : Bytes) : Option (Envelope × Format) :=
  formats.findSome? fun format => ((format.decode content).toOption).map fun e => (e, format)

theorem toOption_ofNode (number : Nat) (content : Bytes) :
    (ofNode (.file number content)).toOption = firstOf? [.cbor, .json] content := by
  cases content with
  | nil =>
    obtain ⟨_, hb⟩ := Format.decode_nil .cbor
    obtain ⟨_, ht⟩ := Format.decode_nil .json
    simp only [ofNode, firstOf?, List.findSome?, hb, ht]
    rfl
  | cons b more =>
    simp only [ofNode, firstOf?, List.findSome?, Format.decode]
    cases decodeBinary (b :: more) with
    | ok e => rfl
    | error _ => cases decodeTextual (b :: more) <;> rfl

theorem firstOf?_swap (content : Bytes) :
    firstOf? [.cbor, .json] content = firstOf? [.json, .cbor] content := by
  simp only [firstOf?, List.findSome?, Format.decode]
  cases hb : decodeBinary content with
  | error _ => cases decodeTextual content <;> rfl
  | ok e =>
    cases ht : decodeTextual content with
    | error _ => rfl
    | ok other => exact absurd ⟨e, other, hb, ht⟩ (not_both content)

/-- No content is read in both formats, so that a file is read as the same envelope in the same
format, or not at all, whichever of the two is tried first. -/
theorem no_file_is_ambiguous (content : Bytes) :
    (¬ ∃ e other, decodeBinary content = .ok e ∧ decodeTextual content = .ok other) ∧
    ∀ number, (ofNode (.file number content)).toOption = firstOf? [.cbor, .json] content ∧
      (ofNode (.file number content)).toOption = firstOf? [.json, .cbor] content := by
  refine ⟨not_both content, fun number => ?_⟩
  have hnode := toOption_ofNode number content
  exact ⟨hnode, hnode.trans (firstOf?_swap content)⟩

end Envelope
end Countersign
