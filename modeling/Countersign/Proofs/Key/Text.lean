import Countersign.Envelope.Basic
import Countersign.Proofs.Intent.DigestText
import Countersign.Proofs.Text.Utf8

/-! Key material as text. The digits of bytes behind a prefix are read back as the bytes. -/

namespace Countersign

namespace Hex

theorem trim_prefixed (bytes : Bytes) :
    Text.trim (prefixed bytes).toList = '0' :: 'x' :: encode bytes := by
  rw [prefixed, String.toList_ofList]
  apply Text.trim_eq_self (by simp [Text.isBlank])
  intro c hc
  rcases List.mem_cons.mp (List.mem_of_getLast? hc) with rfl | h
  · rfl
  · rcases List.mem_cons.mp h with rfl | h
    · rfl
    · exact (isPlain_of_mem_encode h).2

end Hex

theorem KeyEncoding.decode_prefixed (name : String) (bytes : Bytes) :
    KeyEncoding.auto.decode name (Hex.prefixed bytes) = .ok bytes := by
  have hsize : (String.ofList (Hex.encode bytes)).utf8ByteSize = 2 * bytes.length :=
    (Text.length_utf8_of_ascii fun _ => Hex.ascii_of_mem_encode).trans (Hex.length_encode bytes)
  have heven : ¬ 2 * bytes.length % 2 ≠ 0 := by omega
  have hhex : decodeHex name ('0' :: 'x' :: Hex.encode bytes) = .ok bytes := by
    simp only [decodeHex, Hex.bare, Hex.unprefixed?, Option.getD_some, hsize, if_neg heven,
      Hex.decode?_encode]
  simp only [decode, Hex.trim_prefixed, List.isEmpty_cons, Bool.false_eq_true, if_false, usesHex,
    Hex.unprefixed?, Option.isSome_some, if_true, hhex]

theorem Envelope.bytesOfText_prefixed (field : String) (bytes : Bytes) :
    bytesOfText field (Hex.prefixed bytes) = .ok bytes := by
  simp only [bytesOfText, Hex.trim_prefixed, List.isEmpty_cons, Bool.false_eq_true, if_false,
    KeyEncoding.decode_prefixed]

end Countersign
