import Mathlib.Algebra.Group.Nat.Defs
import Countersign.Intent.Request
import Countersign.Proofs.Bytes.Hex
import Countersign.Proofs.Except

/-! The data of an intent are no longer than the text that asks for them. -/

namespace Countersign

theorem Text.length_trimmed_le (s : String) : (trimmed s).toList.length ≤ s.toList.length := by
  have hfront := (List.dropWhile_sublist (p := isBlank) (l := s.toList)).length_le
  have hback := (List.dropWhile_sublist (p := isBlank)
    (l := (s.toList.dropWhile isBlank).reverse)).length_le
  simp only [trimmed, trim, String.toList_ofList, List.length_reverse] at hback ⊢
  omega

namespace HexText

theorem length_of_read {field value : String} {h : HexText} (hr : read field value = .ok h) :
    value.toList.length = h.digits.length + 2 := by
  unfold read at hr
  split at hr
  · rename_i rest hvalue
    split at hr
    · cases hr
      simp [hvalue]
    · exact nomatch hr
  · exact nomatch hr

theorem length_of_bytes {field : String} {h : HexText} {content : Bytes}
    (hb : h.bytes field = .ok content) : h.digits.length = 2 * content.length := by
  unfold bytes at hb
  obtain ⟨_, hb⟩ := of_check_eq_ok hb
  split at hb
  · rename_i hd
    cases hb
    exact Hex.length_of_decode? hd
  · cases hb

end HexText

/-- Whether the text of the data has a place in memory, where the length of each is a number of
eight bytes. -/
def Request.IsStorable (r : Request) : Prop := ∀ s ∈ r.data, s.length < 2 ^ 64

theorem Intent.length_data_of_ofRequest {r : Request} {I : Intent} (h : ofRequest r = .ok I) :
    I.data = [] ∨ ∃ s ∈ r.data, I.data.length ≤ s.length := by
  unfold ofRequest at h
  split at h
  case h_2 => exact nomatch h
  case h_1 =>
    obtain ⟨_, _, h⟩ := exists_of_bind_eq_ok h
    obtain ⟨_, _, h⟩ := exists_of_bind_eq_ok h
    split at h
    case h_2 => exact nomatch h
    case h_1 =>
      split at h
      case h_2 => exact nomatch h
      case h_1 =>
        obtain ⟨_, _, h⟩ := exists_of_bind_eq_ok h
        split at h
        case h_1 =>
          cases h
          exact .inl rfl
        case h_2 s hs =>
          obtain ⟨digits, hdigits, h⟩ := exists_of_bind_eq_ok h
          obtain ⟨content, hcontent, h⟩ := exists_of_bind_eq_ok h
          cases h
          refine .inr ⟨s, hs, ?_⟩
          have hread := HexText.length_of_read hdigits
          have hbytes := HexText.length_of_bytes hcontent
          have htrimmed := Text.length_trimmed_le s
          have hchars : s.toList.length = s.length := String.length_toList
          show content.length ≤ s.length
          omega

theorem Request.IsStorable.length_data {r : Request} (hr : r.IsStorable) {I : Intent}
    (h : Intent.ofRequest r = .ok I) : I.data.length < 2 ^ 256 := by
  rcases Intent.length_data_of_ofRequest h with hnil | ⟨s, hs, hle⟩
  · rw [hnil]
    exact Nat.two_pow_pos 256
  · have hlt := hr s hs
    omega

end Countersign
