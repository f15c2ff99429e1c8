import Countersign.Bytes.Base64
import Countersign.Proofs.Bytes.Hex

/-! Base64 text. Bytes are read back from their text, and only where they start in one of two ways
does the text start like hexadecimal digits behind a prefix. -/

namespace Countersign.Base64

theorem value?_letter {n : Nat} (h : n < 64) : value? (letter n) = some n := by
  have hall : ∀ m < 64, value? (letter m) = some m := by decide
  exact hall n h

theorem letter_isPlain {n : Nat} (h : n < 64) :
    letter n ≠ '=' ∧ Text.isBlank (letter n) = false := by
  have hall : ∀ m < 64, letter m ≠ '=' ∧ Text.isBlank (letter m) = false := by decide
  exact hall n h

theorem letter_inj {m n : Nat} (hm : m < 64) (hn : n < 64) : letter m = letter n ↔ m = n := by
  refine ⟨fun h => ?_, fun h => h ▸ rfl⟩
  rw [← Option.some.injEq, ← value?_letter hm, ← value?_letter hn, h]

theorem decode?_group {p q r s : Char} (hs : s ≠ '=') (rest : List Char) :
    decode? (p :: q :: r :: s :: rest) = (do
      let a ← value? p
      let b ← value? q
      let c ← value? r
      let d ← value? s
      let bytes ← decode? rest
      return UInt8.ofNat (a * 4 + b / 16) :: UInt8.ofNat (b % 16 * 16 + c / 4) ::
        UInt8.ofNat (c % 4 * 64 + d) :: bytes) := by
  rw [decode?]
  · rintro _ rfl
    exact absurd rfl hs
  · rintro rfl
    exact absurd rfl hs

theorem decode?_encode (bytes : Bytes) : decode? (encode bytes) = some bytes := by
  have hbyte : ∀ b : UInt8, b.toNat < 256 := fun b => b.toNat_lt
  -- the letters hold the bits of the bytes, which are put together from them again
  induction bytes using encode.induct with
  | case1 => rfl
  | case2 a =>
    have ha := hbyte a
    have hp := value?_letter (show a.toNat / 4 < 64 by omega)
    have hq := value?_letter (show a.toNat % 4 * 16 < 64 by omega)
    have hleft : a.toNat % 4 * 16 % 16 = 0 := by omega
    have hvalue : a.toNat / 4 * 4 + a.toNat % 4 * 16 / 16 = a.toNat := by omega
    simp only [encode, decode?, lastOne?, hp, hq, hleft, hvalue, Option.bind_eq_bind,
      Option.bind_some, if_true, UInt8.ofNat_toNat, Option.pure_def]
  | case3 a b =>
    have ha := hbyte a
    have hb := hbyte b
    have hp := value?_letter (show a.toNat / 4 < 64 by omega)
    have hq := value?_letter (show a.toNat % 4 * 16 + b.toNat / 16 < 64 by omega)
    have hr := value?_letter (show b.toNat % 16 * 4 < 64 by omega)
    have hleft : b.toNat % 16 * 4 % 4 = 0 := by omega
    have hfirst : a.toNat / 4 * 4 + (a.toNat % 4 * 16 + b.toNat / 16) / 16 = a.toNat := by omega
    have hsecond : (a.toNat % 4 * 16 + b.toNat / 16) % 16 * 16 + b.toNat % 16 * 4 / 4 =
        b.toNat := by omega
    have hletter : letter (b.toNat % 16 * 4) ≠ '=' := (letter_isPlain (by omega)).1
    rw [encode, decode?]
    · simp only [lastTwo?, hp, hq, hr, hleft, hfirst, hsecond, Option.bind_eq_bind,
        Option.bind_some, if_true, UInt8.ofNat_toNat, Option.pure_def]
    · exact hletter
  | case4 a b c rest ih =>
    have ha := hbyte a
    have hb := hbyte b
    have hc := hbyte c
    have hp := value?_letter (show a.toNat / 4 < 64 by omega)
    have hq := value?_letter (show a.toNat % 4 * 16 + b.toNat / 16 < 64 by omega)
    have hr := value?_letter (show b.toNat % 16 * 4 + c.toNat / 64 < 64 by omega)
    have hs := value?_letter (show c.toNat % 64 < 64 by omega)
    have hfirst : a.toNat / 4 * 4 + (a.toNat % 4 * 16 + b.toNat / 16) / 16 = a.toNat := by omega
    have hsecond : (a.toNat % 4 * 16 + b.toNat / 16) % 16 * 16 +
        (b.toNat % 16 * 4 + c.toNat / 64) / 4 = b.toNat := by omega
    have hthird : (b.toNat % 16 * 4 + c.toNat / 64) % 4 * 64 + c.toNat % 64 = c.toNat := by omega
    rw [encode, decode?_group (letter_isPlain (by omega)).1]
    simp only [hp, hq, hr, hs, ih, hfirst, hsecond, hthird, Option.bind_eq_bind, Option.bind_some,
      UInt8.ofNat_toNat, Option.pure_def]

theorem not_blank_of_mem_encode {bytes : Bytes} {c : Char} (h : c ∈ encode bytes) :
    Text.isBlank c = false := by
  have hbyte : ∀ b : UInt8, b.toNat < 256 := fun b => b.toNat_lt
  induction bytes using encode.induct with
  | case1 => exact nomatch h
  | case2 a =>
    have ha := hbyte a
    simp only [encode, List.mem_cons, List.not_mem_nil, or_false] at h
    rcases h with rfl | rfl | rfl | rfl
    · exact (letter_isPlain (by omega)).2
    · exact (letter_isPlain (by omega)).2
    · decide
    · decide
  | case3 a b =>
    have ha := hbyte a
    have hb := hbyte b
    simp only [encode, List.mem_cons, List.not_mem_nil, or_false] at h
    rcases h with rfl | rfl | rfl | rfl
    · exact (letter_isPlain (by omega)).2
    · exact (letter_isPlain (by omega)).2
    · exact (letter_isPlain (by omega)).2
    · decide
  | case4 a b c' rest ih =>
    have ha := hbyte a
    have hb := hbyte b
    have hc := hbyte c'
    simp only [encode, List.mem_cons] at h
    rcases h with rfl | rfl | rfl | rfl | h
    · exact (letter_isPlain (by omega)).2
    · exact (letter_isPlain (by omega)).2
    · exact (letter_isPlain (by omega)).2
    · exact (letter_isPlain (by omega)).2
    · exact ih h

theorem length_encode (bytes : Bytes) : (encode bytes).length = 4 * ((bytes.length + 2) / 3) := by
  induction bytes using encode.induct with
  | case1 => rfl
  | case2 a => simp [encode]
  | case3 a b => simp [encode]
  | case4 a b c rest ih =>
    simp only [encode, List.length_cons, ih]
    omega

/-! ### Text that looks like digits behind a prefix -/

/-- Whether the base64 text of the bytes starts with `0x` or `0X`. -/
def looksPrefixed : Bytes → Bool
  | a :: b :: _ =>
    (a.toNat == 0xd3 && b.toNat / 16 == 1) || (a.toNat == 0xd1 && b.toNat / 16 == 7)
  | _ => false

theorem exists_encode_eq (a b : UInt8) (rest : Bytes) : ∃ more, encode (a :: b :: rest) =
    letter (a.toNat / 4) :: letter (a.toNat % 4 * 16 + b.toNat / 16) :: more := by
  cases rest with
  | nil => exact ⟨_, rfl⟩
  | cons c rest => exact ⟨_, rfl⟩

theorem exists_unprefixed?_iff {s : List Char} : (∃ digits, Hex.unprefixed? s = some digits) ↔
    ∃ x digits, s = letter 52 :: letter x :: digits ∧ (x = 49 ∨ x = 23) := by
  have hzero : letter 52 = '0' := by decide
  have hx : letter 49 = 'x' := by decide
  have hX : letter 23 = 'X' := by decide
  simp only [Hex.unprefixed?_eq_some_iff]
  constructor
  · rintro ⟨digits, rfl | rfl⟩
    · exact ⟨49, digits, by rw [hzero, hx], .inl rfl⟩
    · exact ⟨23, digits, by rw [hzero, hX], .inr rfl⟩
  · rintro ⟨_, digits, rfl, rfl | rfl⟩
    · exact ⟨digits, .inl (by rw [hzero, hx])⟩
    · exact ⟨digits, .inr (by rw [hzero, hX])⟩

theorem exists_unprefixed?_encode_iff {bytes : Bytes} :
    (∃ digits, Hex.unprefixed? (encode bytes) = some digits) ↔ looksPrefixed bytes = true := by
  have hbyte : ∀ b : UInt8, b.toNat < 256 := fun b => b.toNat_lt
  rw [exists_unprefixed?_iff]
  match bytes with
  | [] => simp [encode, looksPrefixed]
  | [a] =>
    have ha := hbyte a
    simp only [encode, looksPrefixed, Bool.false_eq_true, iff_false, List.cons.injEq]
    rintro ⟨x, digits, ⟨_, hsecond, _⟩, hx⟩
    rw [letter_inj (by omega) (by omega)] at hsecond
    omega
  | a :: b :: rest =>
    have ha := hbyte a
    have hb := hbyte b
    obtain ⟨more, hmore⟩ := exists_encode_eq a b rest
    simp only [hmore, looksPrefixed, List.cons.injEq, Bool.or_eq_true, Bool.and_eq_true, beq_iff_eq]
    constructor
    · rintro ⟨x, digits, ⟨hfirst, hsecond, _⟩, hx⟩
      rw [letter_inj (by omega) (by omega)] at hfirst hsecond
      omega
    · rintro (⟨hfirst, hsecond⟩ | ⟨hfirst, hsecond⟩)
      · refine ⟨49, more, ⟨?_, ?_, rfl⟩, .inl rfl⟩
        · exact congrArg letter (by omega)
        · exact congrArg letter (by omega)
      · refine ⟨23, more, ⟨?_, ?_, rfl⟩, .inr rfl⟩
        · exact congrArg letter (by omega)
        · exact congrArg letter (by omega)

end Countersign.Base64
