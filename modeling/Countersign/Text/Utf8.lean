import Countersign.Bytes.Hex

/-! Text as UTF-8 bytes. -/

namespace Countersign.Text

def utf8 (s : String) : Bytes := s.toByteArray.data.toList

/-- The text that `bytes` encode, if they are well-formed UTF-8. -/
def ofUtf8? (bytes : Bytes) : Option String := String.fromUTF8? ⟨bytes.toArray⟩

theorem ofUtf8?_utf8 (s : String) : ofUtf8? (utf8 s) = some s := by
  have h : (ByteArray.mk s.toByteArray.data.toList.toArray).IsValidUTF8 := by
    simpa using s.isValidUTF8
  unfold ofUtf8? utf8 String.fromUTF8?
  rw [dif_pos h]
  simp [String.fromUTF8]

theorem utf8_of_ofUtf8? {bytes : Bytes} {s : String} (h : ofUtf8? bytes = some s) :
    utf8 s = bytes := by
  unfold ofUtf8? String.fromUTF8? at h
  split at h
  · cases h
    simp [utf8, String.fromUTF8]
  · cases h

end Countersign.Text
