import Countersign.Text.Blank
import Countersign.Text.Utf8

/-! Bytes that are the encoding of a text, and the bytes of single characters. -/

namespace Countersign.Text

theorem utf8_injective {s t : String} (h : utf8 s = utf8 t) : s = t := by
  have hh := congrArg ofUtf8? h
  simpa [ofUtf8?_utf8] using hh

@[simp]
theorem utf8_beq (s t : String) : (utf8 s == utf8 t) = (s == t) := by
  by_cases h : s = t
  · simp [h]
  · have hne : utf8 s ≠ utf8 t := fun hh => h (utf8_injective hh)
    rw [beq_eq_false_iff_ne.mpr h, beq_eq_false_iff_ne.mpr hne]

theorem utf8_eq_flatMap (s : String) : utf8 s = s.toList.flatMap String.utf8EncodeChar := by
  have h : s.toByteArray = s.toList.utf8Encode := by
    rw [← String.toByteArray_ofList, String.ofList_toList]
  rw [utf8, h, List.utf8Encode, List.data_toByteArray]

theorem utf8_ofList (s : List Char) : utf8 (String.ofList s) = s.flatMap String.utf8EncodeChar := by
  rw [utf8_eq_flatMap, String.toList_ofList]

/-- Whether the bytes encode some text. -/
def IsEncoded (bytes : Bytes) : Prop := ∃ s : List Char, s.flatMap String.utf8EncodeChar = bytes

theorem isEncoded_utf8 (s : String) : IsEncoded (utf8 s) := ⟨s.toList, (utf8_eq_flatMap s).symm⟩

theorem isEncoded_nil : IsEncoded [] := ⟨[], rfl⟩

theorem isEncoded_char (c : Char) : IsEncoded (String.utf8EncodeChar c) := ⟨[c], by simp⟩

theorem IsEncoded.append {a b : Bytes} (ha : IsEncoded a) (hb : IsEncoded b) :
    IsEncoded (a ++ b) := by
  obtain ⟨s, rfl⟩ := ha
  obtain ⟨t, rfl⟩ := hb
  exact ⟨s ++ t, List.flatMap_append⟩

theorem exists_of_isEncoded {bytes : Bytes} (h : IsEncoded bytes) :
    ∃ s, ofUtf8? bytes = some s ∧ utf8 s = bytes := by
  obtain ⟨s, rfl⟩ := h
  exact ⟨String.ofList s, by rw [← utf8_ofList, ofUtf8?_utf8], utf8_ofList s⟩

theorem isEncoded_of_ofUtf8? {bytes : Bytes} (h : (ofUtf8? bytes).isSome = true) :
    IsEncoded bytes := by
  obtain ⟨s, hs⟩ := Option.isSome_iff_exists.mp h
  rw [← utf8_of_ofUtf8? hs]
  exact isEncoded_utf8 s

theorem utf8EncodeChar_of_ascii {c : Char} (h : c.toNat < 128) :
    String.utf8EncodeChar c = [UInt8.ofNat c.toNat] := by
  have hle : c.toNat ≤ 127 := by omega
  simp only [String.utf8EncodeChar, Char.toNat_val, hle, if_true]

theorem length_utf8_of_ascii {s : List Char} (h : ∀ c ∈ s, c.toNat < 128) :
    (utf8 (String.ofList s)).length = s.length := by
  rw [utf8_ofList]
  induction s with
  | nil => rfl
  | cons c rest ih =>
    have hrest := ih fun d hd => h d (List.mem_cons_of_mem _ hd)
    rw [List.flatMap_cons, utf8EncodeChar_of_ascii (h c List.mem_cons_self), List.length_append,
      hrest, List.length_singleton, List.length_cons, Nat.add_comm]

theorem le_of_mem_utf8EncodeChar {c : Char} (h : ¬ c.toNat < 128) {b : UInt8}
    (hb : b ∈ String.utf8EncodeChar c) : 128 ≤ b.toNat := by
  have hgt : ¬ c.val.toNat ≤ 127 := by
    rw [Char.toNat_val]
    omega
  have hof : ∀ n, 128 ≤ n → n < 256 → 128 ≤ (UInt8.ofNat n).toNat := by
    intro n hlow hhigh
    rw [UInt8.toNat_ofNat', Nat.mod_eq_of_lt hhigh]
    exact hlow
  simp only [String.utf8EncodeChar, hgt, if_false] at hb
  split at hb
  · simp only [List.mem_cons, List.not_mem_nil, or_false] at hb
    rcases hb with rfl | rfl <;> exact hof _ (by omega) (by omega)
  · split at hb
    · simp only [List.mem_cons, List.not_mem_nil, or_false] at hb
      rcases hb with rfl | rfl | rfl <;> exact hof _ (by omega) (by omega)
    · simp only [List.mem_cons, List.not_mem_nil, or_false] at hb
      rcases hb with rfl | rfl | rfl | rfl <;> exact hof _ (by omega) (by omega)

theorem isEncoded_ascii {b : UInt8} (h : b.toNat < 128) : IsEncoded [b] := by
  refine ⟨[Char.ofNat b.toNat], ?_⟩
  have hn : (Char.ofNat b.toNat).toNat = b.toNat := by
    have hv : b.toNat.isValidChar := Or.inl (by omega)
    rw [Char.ofNat, dif_pos hv]
    rfl
  rw [List.flatMap_singleton, utf8EncodeChar_of_ascii (by omega), hn, UInt8.ofNat_toNat]

end Countersign.Text
