import Countersign.Bytes.Hex
import Countersign.Proofs.Text.Trim

/-! Hexadecimal digits of either case. Digits are decoded as the bytes that they are the digits of,
and every even number of them can be decoded. -/

namespace Countersign.Hex

theorem digit?_digitChar {n : Nat} (h : n < 16) : digit? (Nat.digitChar n) = some n := by
  have hall : ∀ m < 16, digit? (Nat.digitChar m) = some m := by decide
  exact hall n h

theorem decode?_encode (bytes : Bytes) : decode? (encode bytes) = some bytes := by
  induction bytes with
  | nil => rfl
  | cons b rest ih =>
    have hb : b.toNat < 256 := b.toNat_lt
    have hhigh := digit?_digitChar (show b.toNat / 16 < 16 by omega)
    have hlow := digit?_digitChar (show b.toNat % 16 < 16 by omega)
    have hval : 16 * (b.toNat / 16) + b.toNat % 16 = b.toNat := by omega
    simp only [encode, decode?, hhigh, hlow, ih, Option.bind_eq_bind, Option.bind_some, hval,
      UInt8.ofNat_toNat, Option.pure_def]

theorem digitChar_isPlain {n : Nat} (h : n < 16) :
    (Nat.digitChar n).toLower = Nat.digitChar n ∧ Text.isBlank (Nat.digitChar n) = false := by
  have hall : ∀ m < 16, (Nat.digitChar m).toLower = Nat.digitChar m ∧
      Text.isBlank (Nat.digitChar m) = false := by decide
  exact hall n h

theorem isPlain_of_mem_encode {bytes : Bytes} {c : Char} (h : c ∈ encode bytes) :
    c.toLower = c ∧ Text.isBlank c = false := by
  induction bytes with
  | nil => simp [encode] at h
  | cons b rest ih =>
    have hb : b.toNat < 256 := b.toNat_lt
    simp only [encode, List.mem_cons] at h
    rcases h with rfl | rfl | h
    · exact digitChar_isPlain (by omega)
    · exact digitChar_isPlain (by omega)
    · exact ih h

theorem encode_injective {a b : Bytes} (h : encode a = encode b) : a = b := by
  have hd := congrArg decode? h
  simpa [decode?_encode] using hd

theorem length_encode (bytes : Bytes) : (encode bytes).length = 2 * bytes.length := by
  induction bytes with
  | nil => rfl
  | cons b rest ih =>
    simp only [encode, List.length_cons, ih]
    omega

/-! ### Digits of either case -/

theorem of_ascii {P : Char → Prop} (h : ∀ n < 128, P (Char.ofNat n)) {c : Char}
    (hc : c.toNat < 128) : P c := by
  rw [← Char.ofNat_toNat c]
  exact h c.toNat hc

theorem ascii_of_le {c d : Char} (h : c ≤ d) (hd : d.toNat < 128) : c.toNat < 128 := by
  have hval : c.toNat ≤ d.toNat := h
  omega

theorem ascii_of_isDigit {c : Char} (h : isDigit c = true) : c.toNat < 128 := by
  by_contra hc
  have h9 : ¬ c ≤ '9' := fun hle => hc (ascii_of_le hle (by decide))
  have hf : ¬ c ≤ 'f' := fun hle => hc (ascii_of_le hle (by decide))
  have hF : ¬ c ≤ 'F' := fun hle => hc (ascii_of_le hle (by decide))
  simp [isDigit, digit?, h9, hf, hF] at h

/-- The characters of seven bits, one by one. -/
theorem ascii_cases {c : Char} (h : c.toNat < 128) :
    (∀ n ∈ digit? c, n < 16 ∧ c.toLower = Nat.digitChar n) ∧ digit? c.toLower = digit? c ∧
      (isDigit c = true → Text.isBlank c = false) := by
  apply of_ascii _ h
  decide +kernel

/-- A digit in lower case is the one that is written for its value. -/
theorem toLower_of_digit? {c : Char} {n : Nat} (h : digit? c = some n) :
    n < 16 ∧ c.toLower = Nat.digitChar n := by
  have hc : isDigit c = true := by rw [isDigit, h, Option.isSome_some]
  exact (ascii_cases (ascii_of_isDigit hc)).1 n h

@[simp]
theorem digit?_toLower (c : Char) : digit? c.toLower = digit? c := by
  by_cases hc : c.toNat < 128
  · exact (ascii_cases hc).2.1
  · have hsame : c.toLower = c := by
      apply Char.toNat_inj.mp
      rw [Text.toNat_toLower, if_neg (by omega)]
    rw [hsame]

@[simp]
theorem isDigit_toLower (c : Char) : isDigit c.toLower = isDigit c := by
  rw [isDigit, isDigit, digit?_toLower]

theorem not_blank_of_isDigit {c : Char} (h : isDigit c = true) : Text.isBlank c = false :=
  (ascii_cases (ascii_of_isDigit h)).2.2 h

theorem isDigit_of_mem_encode {bytes : Bytes} {c : Char} (h : c ∈ encode bytes) :
    isDigit c = true := by
  induction bytes with
  | nil => exact nomatch h
  | cons b rest ih =>
    have hb : b.toNat < 256 := b.toNat_lt
    rcases List.mem_cons.mp h with rfl | h
    · rw [isDigit, digit?_digitChar (by omega)]
      rfl
    · rcases List.mem_cons.mp h with rfl | h
      · rw [isDigit, digit?_digitChar (by omega)]
        rfl
      · exact ih h

theorem ascii_of_mem_encode {bytes : Bytes} {c : Char} (h : c ∈ encode bytes) : c.toNat < 128 :=
  ascii_of_isDigit (isDigit_of_mem_encode h)

theorem decode?_map_toLower (s : List Char) : decode? (s.map Char.toLower) = decode? s := by
  induction s using decode?.induct with
  | case1 => rfl
  | case2 => rfl
  | case3 high low rest ih => simp only [List.map_cons, decode?, digit?_toLower, ih]

/-- Digits are decoded as the bytes that they are written for, but for their case. -/
theorem decode?_eq_some_iff {s : List Char} {bytes : Bytes} :
    decode? s = some bytes ↔ s.map Char.toLower = encode bytes := by
  constructor
  · intro h
    induction s using decode?.induct generalizing bytes with
    | case1 =>
      cases h
      rfl
    | case2 => exact nomatch h
    | case3 high low rest ih =>
      simp only [decode?, Option.bind_eq_bind, Option.bind_eq_some_iff] at h
      obtain ⟨m, hm, n, hn, more, hmore, h⟩ := h
      cases h
      obtain ⟨hm16, hhigh⟩ := toLower_of_digit? hm
      obtain ⟨hn16, hlow⟩ := toLower_of_digit? hn
      have hb : (UInt8.ofNat (16 * m + n)).toNat = 16 * m + n := by
        rw [UInt8.toNat_ofNat', Nat.mod_eq_of_lt (by omega)]
      have hdiv : (16 * m + n) / 16 = m := by omega
      have hmod : (16 * m + n) % 16 = n := by omega
      rw [List.map_cons, List.map_cons, encode, hb, hdiv, hmod, ih hmore, hhigh, hlow]
  · intro h
    rw [← decode?_map_toLower, h, decode?_encode]

theorem length_of_decode? {s : List Char} {bytes : Bytes} (h : decode? s = some bytes) :
    s.length = 2 * bytes.length := by
  rw [← length_encode, ← decode?_eq_some_iff.mp h, List.length_map]

theorem isSome_decode?_iff {s : List Char} :
    (∃ bytes, decode? s = some bytes) ↔ s.length % 2 = 0 ∧ s.all isDigit = true := by
  constructor
  · rintro ⟨bytes, h⟩
    have hs := decode?_eq_some_iff.mp h
    have hlength := length_of_decode? h
    refine ⟨by omega, List.all_eq_true.mpr fun c hc => ?_⟩
    have hmem : c.toLower ∈ encode bytes := hs ▸ List.mem_map_of_mem hc
    rw [← isDigit_toLower]
    exact isDigit_of_mem_encode hmem
  · rintro ⟨heven, hall⟩
    induction s using decode?.induct with
    | case1 => exact ⟨[], rfl⟩
    | case2 c => simp at heven
    | case3 high low rest ih =>
      simp only [List.all_cons, Bool.and_eq_true] at hall
      obtain ⟨m, hm⟩ := Option.isSome_iff_exists.mp hall.1
      obtain ⟨n, hn⟩ := Option.isSome_iff_exists.mp hall.2.1
      obtain ⟨more, hmore⟩ := ih (by simp only [List.length_cons] at heven; omega) hall.2.2
      simp only [decode?, hm, hn, hmore, Option.bind_eq_bind, Option.bind_some]
      exact ⟨_, rfl⟩

/-! ### Prefixes -/

theorem unprefixed?_eq_some_iff {s digits : List Char} :
    unprefixed? s = some digits ↔ s = '0' :: 'x' :: digits ∨ s = '0' :: 'X' :: digits := by
  constructor
  · intro h
    unfold unprefixed? at h
    split at h
    · exact .inl (by rw [Option.some.inj h])
    · exact .inr (by rw [Option.some.inj h])
    · exact nomatch h
  · rintro (rfl | rfl) <;> rfl

theorem bare_of_digits {s : List Char} (h : ∀ c ∈ s, isDigit c = true) : bare s = s := by
  cases hp : unprefixed? s with
  | none => rw [bare, hp, Option.getD_none]
  | some digits =>
    rcases unprefixed?_eq_some_iff.mp hp with rfl | rfl
    · exact absurd (h 'x' (by simp)) (by decide)
    · exact absurd (h 'X' (by simp)) (by decide)

theorem toLower_eq_zero_iff {c : Char} : c.toLower = '0' ↔ c = '0' := by
  rw [← Char.toNat_inj, ← Char.toNat_inj, Text.toNat_toLower]
  show _ = 48 ↔ c.toNat = 48
  split <;> omega

theorem toLower_eq_x_iff {c : Char} : c.toLower = 'x' ↔ c = 'x' ∨ c = 'X' := by
  rw [← Char.toNat_inj, ← Char.toNat_inj, ← Char.toNat_inj, Text.toNat_toLower]
  show _ = 120 ↔ c.toNat = 120 ∨ c.toNat = 88
  split <;> omega

end Countersign.Hex
