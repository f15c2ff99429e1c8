import Countersign.Json.Reader
import Countersign.Proofs.Text.Utf8

/-! Texts between quotation marks. Whatever the bytes of a text are, they are read back from what
is written for them; and what is written for a well-formed text is well-formed. -/

namespace Countersign.Json

theorem isEncoded_ascii (s : String) : Text.IsEncoded (ascii s) := Text.isEncoded_utf8 s

/-- The piece that is read from what is written for a byte. -/
def pieceOf (b : UInt8) : Piece :=
  if b = 0x08 ∨ b = 0x09 ∨ b = 0x0a ∨ b = 0x0c ∨ b = 0x0d then .byte b
  else if b < 0x20 then .unit b.toNat
  else .byte b

theorem codeUnit?_hexByte {n : Nat} (h : n < 32) :
    codeUnit? 0x30 0x30 (hexByte (n / 16)) (hexByte (n % 16)) = some n := by
  have hall : ∀ m < 32,
      codeUnit? 0x30 0x30 (hexByte (m / 16)) (hexByte (m % 16)) = some m := by decide +kernel
  exact hall n h

/-- Every byte is written as itself, behind a backslash, or by number. -/
theorem escape_cases (b : UInt8) :
    (∃ e, escape b = [0x5c, e] ∧ e ≠ 0x75 ∧ escaped? e = some b ∧ pieceOf b = .byte b) ∨
    (b.toNat < 32 ∧ pieceOf b = .unit b.toNat ∧
      escape b = [0x5c, 0x75, 0x30, 0x30, hexByte (b.toNat / 16), hexByte (b.toNat % 16)]) ∨
    (escape b = [b] ∧ b ≠ 0x22 ∧ ¬ (b < 0x20 ∨ b = 0x5c) ∧ pieceOf b = .byte b) := by
  by_cases hq : b = 0x22
  · exact .inl ⟨0x22, by simp [hq, escape], by decide, by simp [hq, escaped?], by
      rw [hq]
      rfl⟩
  · by_cases hs : b = 0x5c
    · exact .inl ⟨0x5c, by simp [hs, escape], by decide, by simp [hs, escaped?], by
        rw [hs]
        rfl⟩
    · by_cases hc : b = 0x08 ∨ b = 0x09 ∨ b = 0x0a ∨ b = 0x0c ∨ b = 0x0d
      · left
        rcases hc with rfl | rfl | rfl | rfl | rfl
        · exact ⟨0x62, rfl, by decide, rfl, rfl⟩
        · exact ⟨0x74, rfl, by decide, rfl, rfl⟩
        · exact ⟨0x6e, rfl, by decide, rfl, rfl⟩
        · exact ⟨0x66, rfl, by decide, rfl, rfl⟩
        · exact ⟨0x72, rfl, by decide, rfl, rfl⟩
      · right
        have hp : pieceOf b = if b < 0x20 then .unit b.toNat else .byte b := by
          rw [pieceOf, if_neg hc]
        simp only [not_or] at hc
        obtain ⟨h8, h9, ha, hd, hr⟩ := hc
        by_cases hl : b < 0x20
        · exact .inl ⟨UInt8.lt_iff_toNat_lt.mp hl, by rw [hp, if_pos hl], by
            simp [escape, hq, hs, h8, h9, ha, hd, hr, hl]⟩
        · exact .inr ⟨by simp [escape, hq, hs, h8, h9, ha, hd, hr, hl], hq, by simp [hl, hs], by
            rw [hp, if_neg hl]⟩

theorem readPieces_escape (b : UInt8) (bytes : Bytes) :
    readPieces (escape b ++ bytes) =
      (readPieces bytes).map fun (pieces, rest) => (pieceOf b :: pieces, rest) := by
  rcases escape_cases b with ⟨e, he, hu, hb, hp⟩ | ⟨hl, hp, he⟩ | ⟨he, hq, hn, hp⟩
  · rw [he, hp]
    simp only [List.cons_append, List.nil_append]
    rw [readPieces]
    · simp only [hb, Option.bind_eq_bind, Option.bind_some]
      cases readPieces bytes <;> rfl
    · intro a b c d rest h _
      exact hu h
  · rw [he, hp]
    simp only [List.cons_append, List.nil_append]
    rw [readPieces]
    simp only [codeUnit?_hexByte hl, Option.bind_eq_bind, Option.bind_some]
    cases readPieces bytes <;> rfl
  · rw [he, hp]
    simp only [List.cons_append, List.nil_append]
    have hs : b ≠ 0x5c := fun h => hn (.inr h)
    rw [readPieces]
    · rw [if_neg hn]
    · exact hq
    · intro a b' c d rest h _
      exact hs h
    · intro e rest h _
      exact hs h

theorem readPieces_quoted (bytes rest : Bytes) :
    readPieces (bytes.flatMap escape ++ 0x22 :: rest) = some (bytes.map pieceOf, rest) := by
  induction bytes with
  | nil => rfl
  | cons b bytes ih =>
    rw [List.flatMap_cons, List.append_assoc, readPieces_escape, ih]
    rfl

/-- A unit that is written by number is a control character, and joins with nothing behind it. -/
theorem joinPieces_pieceOf (b : UInt8) (pieces : List Piece) :
    joinPieces (pieceOf b :: pieces) = b :: joinPieces pieces := by
  rcases escape_cases b with ⟨_, _, _, _, hp⟩ | ⟨hl, hp, _⟩ | ⟨_, _, _, hp⟩
  · rw [hp]
    rfl
  · have hpoint : codePointBytes b.toNat = [b] := by
      simp [codePointBytes, show b.toNat < 128 by omega]
    have hlead : isLeading b.toNat = false := by
      simp [isLeading]
      omega
    rw [hp]
    cases pieces with
    | nil => simp [joinPieces, hpoint]
    | cons p pieces => cases p <;> simp [joinPieces, hpoint, hlead]
  · rw [hp]
    rfl

theorem joinPieces_map_pieceOf (bytes : Bytes) : joinPieces (bytes.map pieceOf) = bytes := by
  induction bytes with
  | nil => rfl
  | cons b bytes ih => rw [List.map_cons, joinPieces_pieceOf, ih]

theorem readText_quoted (bytes rest : Bytes) :
    readText (bytes.flatMap escape ++ 0x22 :: rest) = some (bytes, rest) := by
  simp [readText, readPieces_quoted, joinPieces_map_pieceOf]

theorem isEncoded_of_ascii {bytes : Bytes} (h : ∀ b ∈ bytes, b.toNat < 128) :
    Text.IsEncoded bytes := by
  induction bytes with
  | nil => exact Text.isEncoded_nil
  | cons b bytes ih =>
    have hb := Text.isEncoded_ascii (h b List.mem_cons_self)
    exact hb.append (ih fun c hc => h c (List.mem_cons_of_mem _ hc))

theorem hexByte_bounds {n : Nat} (h : n < 16) : 0x20 ≤ hexByte n ∧ (hexByte n).toNat < 128 := by
  have hall : ∀ m < 16, 0x20 ≤ hexByte m ∧ (hexByte m).toNat < 128 := by decide
  exact hall n h

theorem escaped?_bounds {e b : UInt8} (h : escaped? e = some b) :
    0x20 ≤ e ∧ e.toNat < 128 ∧ b.toNat < 128 := by
  unfold escaped? at h
  split at h
  · rename_i he
    cases h
    rcases he with rfl | rfl | rfl <;> decide
  · repeat' split at h
    all_goals first
      | cases h
        subst e
        decide
      | exact nomatch h

/-- What is written for a byte has no control characters, and is ASCII where it is not the byte. -/
theorem bounds_of_mem_escape {b c : UInt8} (h : c ∈ escape b) :
    0x20 ≤ c ∧ (c.toNat < 128 ∨ c = b) := by
  rcases escape_cases b with ⟨e, he, _, hb, _⟩ | ⟨hl, _, he⟩ | ⟨he, _, hn, _⟩
  · obtain ⟨hlow, hhigh, _⟩ := escaped?_bounds hb
    simp only [he, List.mem_cons, List.not_mem_nil, or_false] at h
    rcases h with rfl | rfl
    · exact ⟨by decide, .inl (by decide)⟩
    · exact ⟨hlow, .inl hhigh⟩
  · obtain ⟨hlow, hhigh⟩ := hexByte_bounds (show b.toNat / 16 < 16 by omega)
    obtain ⟨hlow', hhigh'⟩ := hexByte_bounds (show b.toNat % 16 < 16 by omega)
    have hmarks : ∀ m ∈ ([0x5c, 0x75, 0x30, 0x30] : Bytes), 0x20 ≤ m ∧ m.toNat < 128 := by simp
    have hc : c ∈ ([0x5c, 0x75, 0x30, 0x30] : Bytes) ∨ c = hexByte (b.toNat / 16) ∨
        c = hexByte (b.toNat % 16) := by simpa [he, or_assoc] using h
    rcases hc with hm | rfl | rfl
    · exact (hmarks c hm).imp_right .inl
    · exact ⟨hlow, .inl hhigh⟩
    · exact ⟨hlow', .inl hhigh'⟩
  · rw [he, List.mem_singleton] at h
    subst h
    exact ⟨UInt8.not_lt.mp fun hlt => hn (.inl hlt), .inr rfl⟩

theorem isEncoded_escape {b : UInt8} (h : b.toNat < 128) : Text.IsEncoded (escape b) := by
  refine isEncoded_of_ascii fun c hc => ?_
  rcases (bounds_of_mem_escape hc).2 with hascii | rfl
  · exact hascii
  · exact h

theorem escape_of_le {b : UInt8} (h : 128 ≤ b.toNat) : escape b = [b] := by
  rcases escape_cases b with ⟨_, _, _, hb, _⟩ | ⟨hl, _, _⟩ | ⟨he, _, _, _⟩
  · exact absurd (escaped?_bounds hb).2.2 (Nat.not_lt.mpr h)
  · omega
  · exact he

theorem flatMap_escape_of_le {bytes : Bytes} (h : ∀ b ∈ bytes, 128 ≤ b.toNat) :
    bytes.flatMap escape = bytes := by
  induction bytes with
  | nil => rfl
  | cons b bytes ih =>
    rw [List.flatMap_cons, escape_of_le (h b List.mem_cons_self),
      ih fun c hc => h c (List.mem_cons_of_mem _ hc)]
    rfl

theorem isEncoded_escape_char (c : Char) :
    Text.IsEncoded ((String.utf8EncodeChar c).flatMap escape) := by
  by_cases h : c.toNat < 128
  · rw [Text.utf8EncodeChar_of_ascii h, List.flatMap_singleton]
    apply isEncoded_escape
    rw [UInt8.toNat_ofNat', Nat.mod_eq_of_lt (by omega)]
    exact h
  · rw [flatMap_escape_of_le fun b hb => Text.le_of_mem_utf8EncodeChar h hb]
    exact Text.isEncoded_char c

theorem isEncoded_flatMap_escape {bytes : Bytes} (h : Text.IsEncoded bytes) :
    Text.IsEncoded (bytes.flatMap escape) := by
  obtain ⟨s, rfl⟩ := h
  induction s with
  | nil => exact Text.isEncoded_nil
  | cons c s ih =>
    rw [List.flatMap_cons, List.flatMap_append]
    exact (isEncoded_escape_char c).append ih

theorem isEncoded_quote {bytes : Bytes} (h : Text.IsEncoded bytes) :
    Text.IsEncoded (quote bytes) := by
  have hmark : Text.IsEncoded [0x22] := Text.isEncoded_ascii (by decide)
  exact (hmark.append (isEncoded_flatMap_escape h)).append hmark

end Countersign.Json
