import Countersign.Proofs.Json.Spelling
import Countersign.Proofs.Text.Digits

/-! Numbers in JSON text. A number is read as a whole, and one that is written as digits alone is
told from any other. -/

namespace Countersign.Json

def AreDigits (digits : Bytes) : Prop := digits ≠ [] ∧ ∀ b ∈ digits, isDigit b = true

inductive IsFraction : Bytes → Prop where
  | none : IsFraction []
  | point {digits : Bytes} (h : AreDigits digits) : IsFraction (0x2e :: digits)

inductive IsExponent : Bytes → Prop where
  | none : IsExponent []
  | mark {letter : UInt8} {sign digits : Bytes} (hl : letter = 0x65 ∨ letter = 0x45)
      (hs : sign = [] ∨ sign = [0x2b] ∨ sign = [0x2d]) (h : AreDigits digits) :
      IsExponent (letter :: (sign ++ digits))

/-- A number as JSON text has it: a sign, digits of which a leading zero stands alone, a fraction
and an exponent. -/
inductive IsNumber : Bytes → Prop where
  | parts {sign whole fraction exponent : Bytes} (hs : sign = [] ∨ sign = [0x2d])
      (hw : AreDigits whole) (hz : whole.head? = some 0x30 → whole.length = 1)
      (hf : IsFraction fraction) (he : IsExponent exponent) :
      IsNumber (sign ++ (whole ++ (fraction ++ exponent)))

/-- The literal is made of digits alone, and they are those of the number. -/
def IsNatural (literal : Bytes) (n : Nat) : Prop :=
  AreDigits literal ∧ Nat.ofDigits 10 (literal.map fun b => b.toNat - 0x30).reverse = n

theorem valueOf_eq_ofDigits (digits : Bytes) :
    valueOf digits = Nat.ofDigits 10 (digits.map fun b => b.toNat - 0x30).reverse := by
  rw [← Text.foldl_eq_ofDigits, List.foldl_map, valueOf]

variable {fraction exponent rest : Bytes}

/-! ### The parts of a number -/

theorem AreDigits.exists_first {digits : Bytes} (h : AreDigits digits) :
    ∃ b more, digits = b :: more ∧ isDigit b = true := by
  obtain ⟨b, more, rfl⟩ := List.exists_cons_of_ne_nil h.1
  exact ⟨b, more, rfl, h.2 b List.mem_cons_self⟩

theorem IsFraction.head (h : IsFraction fraction)
    (hr : ∀ b ∈ rest.head?, isDigit b = false) :
    ∀ b ∈ (fraction ++ rest).head?, isDigit b = false := by
  cases h with
  | none => exact hr
  | point _ =>
    intro b hb
    cases hb
    rfl

theorem IsExponent.head (h : IsExponent exponent) (hr : EndsNumber rest) :
    ∀ b ∈ (exponent ++ rest).head?, isDigit b = false ∧ b ≠ 0x2e := by
  cases h with
  | none => exact fun b hb => ⟨(hr b hb).1, (hr b hb).2.1⟩
  | mark hl _ _ =>
    intro b hb
    cases hb
    rcases hl with rfl | rfl <;> exact ⟨rfl, by decide⟩

theorem IsFraction.readFraction (h : IsFraction fraction)
    (hr : ∀ b ∈ rest.head?, isDigit b = false ∧ b ≠ 0x2e) :
    Json.readFraction (fraction ++ rest) = some (fraction, rest) := by
  cases h with
  | none =>
    cases rest with
    | nil => rfl
    | cons b rest =>
      rw [List.nil_append, Json.readFraction]
      intro digits hd
      exact (hr b rfl).2 (List.cons.inj hd).1
  | @point digits h =>
    have hdigits := digitsOf_of_head h.2 fun b hb => (hr b hb).1
    simp only [List.cons_append, Json.readFraction, hdigits]
    rw [if_neg (by simp [h.1])]

/-- The mark of an exponent comes first in what is written for it. -/
theorem IsExponent.readExponent (h : IsExponent exponent) (hr : EndsNumber rest) :
    ∃ written, Json.readExponent (exponent ++ rest) = some (written, rest) ∧
      (written = [] ↔ exponent = []) := by
  cases h with
  | none => exact ⟨[], readExponent_of_ends hr, Iff.rfl⟩
  | @mark letter sign digits hl hs h =>
    have hdigits := digitsOf_append h.2 hr
    have hne : ¬ digits.isEmpty = true := by simp [h.1]
    rcases hs with rfl | rfl | rfl
    · obtain ⟨b, more, rfl, hb⟩ := h.exists_first
      have hplus : b ≠ 0x2b := by rintro rfl; exact absurd hb (by decide)
      have hminus : b ≠ 0x2d := by rintro rfl; exact absurd hb (by decide)
      have hdigits' : digitsOf (b :: (more ++ rest)) = (b :: more, rest) := hdigits
      exact ⟨0x65 :: 0x2b :: b :: more, by
        simp [Json.readExponent, hl, hplus, hminus, hdigits'], by simp⟩
    · exact ⟨0x65 :: 0x2b :: digits, by simp [Json.readExponent, hl, hdigits, h.1], by simp⟩
    · exact ⟨0x65 :: 0x2d :: digits, by simp [Json.readExponent, hl, hdigits, h.1], by simp⟩

/-! ### The number as a whole -/

/-- What a number is read as: digits alone are a natural number, and nothing else is. -/
def IsReadAs (literal : Bytes) (j : Json) : Prop :=
  (∃ n, IsNatural literal n ∧ j = natural n) ∨
    (∀ n, ¬ IsNatural literal n) ∧ ∃ written, j = number written

theorem not_isNatural_of_mem {literal : Bytes} {b : UInt8} (hb : b ∈ literal)
    (hd : isDigit b = false) (n : Nat) : ¬ IsNatural literal n := by
  rintro ⟨⟨_, hall⟩, _⟩
  rw [hall b hb] at hd
  exact nomatch hd

theorem readUnsigned_parts {whole : Bytes} (hw : AreDigits whole)
    (hz : whole.head? = some 0x30 → whole.length = 1) (hf : IsFraction fraction)
    (he : IsExponent exponent) (hr : EndsNumber rest) (negative : Bool) :
    ∃ j, readUnsigned negative (whole ++ (fraction ++ (exponent ++ rest))) = some (j, rest) ∧
      ((negative = Bool.false ∧ fraction = [] ∧ exponent = [] ∧ j = natural (valueOf whole)) ∨
        (negative = Bool.true ∨ fraction ≠ [] ∨ exponent ≠ []) ∧ ∃ written, j = number written) := by
  have hhead := he.head hr
  have hdigits := digitsOf_of_head hw.2 (hf.head fun b hb => (hhead b hb).1)
  have hzero : ¬ (whole.isEmpty = Bool.true ∨ (whole.head? = some 0x30 ∧ whole.length ≠ 1)) := by
    rintro (hempty | ⟨hfirst, hlong⟩)
    · exact hw.1 (List.isEmpty_iff.mp hempty)
    · exact hlong (hz hfirst)
  obtain ⟨written, hread, hwritten⟩ := he.readExponent hr
  simp only [readUnsigned, hdigits, if_neg hzero, hf.readFraction hhead, hread,
    Option.bind_eq_bind, Option.bind_some]
  by_cases hplain : negative = Bool.false ∧ fraction = [] ∧ exponent = []
  · obtain ⟨rfl, rfl, rfl⟩ := hplain
    obtain rfl := hwritten.mpr rfl
    exact ⟨_, rfl, .inl ⟨rfl, rfl, rfl, rfl⟩⟩
  · have hmore : (negative || !fraction.isEmpty || !written.isEmpty) = Bool.true := by
      by_contra hnot
      simp only [Bool.not_eq_true, Bool.or_eq_false_iff, Bool.not_eq_false', List.isEmpty_iff]
        at hnot
      exact hplain ⟨hnot.1.1, hnot.1.2, hwritten.mp hnot.2⟩
    rw [if_pos hmore]
    refine ⟨_, rfl, .inr ⟨?_, _, rfl⟩⟩
    by_contra hnot
    simp only [not_or, Bool.not_eq_true, ne_eq, not_not] at hnot
    exact hplain hnot

theorem IsFraction.exists_stray (h : IsFraction fraction) (hne : fraction ≠ []) :
    ∃ b ∈ fraction, isDigit b = false := by
  cases h with
  | none => exact absurd rfl hne
  | point _ => exact ⟨0x2e, List.mem_cons_self, rfl⟩

theorem IsExponent.exists_stray (h : IsExponent exponent) (hne : exponent ≠ []) :
    ∃ b ∈ exponent, isDigit b = false := by
  cases h with
  | none => exact absurd rfl hne
  | mark hl _ _ => exact ⟨_, List.mem_cons_self, by rcases hl with rfl | rfl <;> rfl⟩

variable {literal : Bytes}

theorem IsNumber.exists_first (h : IsNumber literal) :
    ∃ b more, literal = b :: more ∧ isSpace b = false ∧ b ≠ 0x5d := by
  obtain ⟨hs, hw, _, _, _⟩ := h
  rcases hs with rfl | rfl
  · obtain ⟨b, more, rfl, hb⟩ := hw.exists_first
    refine ⟨b, _, rfl, ?_, ?_⟩
    · by_contra hspace
      simp only [isSpace, Bool.not_eq_false, Bool.or_eq_true, beq_iff_eq] at hspace
      rcases hspace with ((rfl | rfl) | rfl) | rfl <;> exact absurd hb (by decide)
    · rintro rfl
      exact absurd hb (by decide)
  · exact ⟨0x2d, _, rfl, rfl, by decide⟩

theorem IsNumber.exists_readUnsigned (h : IsNumber literal) (hr : EndsNumber rest) :
    ∃ j negative digits, IsReadAs literal j ∧
      readUnsigned negative digits = some (j, rest) ∧
      (negative = Bool.true ∧ literal ++ rest = 0x2d :: digits ∨
        negative = Bool.false ∧ literal ++ rest = digits ∧
          ∃ b more, digits = b :: more ∧ isDigit b = Bool.true) := by
  obtain @⟨sign, whole, fraction, exponent, hs, hw, hz, hf, he⟩ := h
  rcases hs with rfl | rfl
  · obtain ⟨j, hread, hj⟩ := readUnsigned_parts hw hz hf he hr Bool.false
    obtain ⟨b, more, hb, hdigit⟩ := hw.exists_first
    refine ⟨j, Bool.false, _, ?_, hread, .inr ⟨rfl, by simp, b, _, by rw [hb]; rfl, hdigit⟩⟩
    rcases hj with ⟨_, rfl, rfl, rfl⟩ | ⟨hmore, written, rfl⟩
    · refine .inl ⟨valueOf whole, ⟨by simpa using hw, ?_⟩, rfl⟩
      simp [valueOf_eq_ofDigits]
    · obtain ⟨stray, hmem, hstray⟩ : ∃ b ∈ fraction ++ exponent, isDigit b = Bool.false := by
        rcases hmore with hfalse | hfraction | hexponent
        · exact nomatch hfalse
        · obtain ⟨b, hb, hd⟩ := hf.exists_stray hfraction
          exact ⟨b, List.mem_append_left _ hb, hd⟩
        · obtain ⟨b, hb, hd⟩ := he.exists_stray hexponent
          exact ⟨b, List.mem_append_right _ hb, hd⟩
      exact .inr ⟨not_isNatural_of_mem (by simp [List.mem_append.mp hmem]) hstray, written, rfl⟩
  · obtain ⟨j, hread, hj⟩ := readUnsigned_parts hw hz hf he hr Bool.true
    refine ⟨j, Bool.true, _, ?_, hread, .inl ⟨rfl, by simp⟩⟩
    rcases hj with ⟨hfalse, _⟩ | ⟨_, written, rfl⟩
    · exact nomatch hfalse
    · exact .inr ⟨not_isNatural_of_mem (b := 0x2d) (by simp) rfl, written, rfl⟩

/-- A number is read wherever it stands, up to what cannot belong to it. -/
theorem IsNumber.exists_readValue (h : IsNumber literal) {before : Bytes} (hb : IsBlank before)
    (hr : EndsNumber rest) (fuel : Nat) : ∃ j, IsReadAs literal j ∧
      readValue (fuel + 1) (before ++ (literal ++ rest)) = some (j, rest) := by
  obtain ⟨b, more, hfirst, hspace, _⟩ := h.exists_first
  have hskip : skipSpace (before ++ (literal ++ rest)) = literal ++ rest := by
    rw [hfirst, List.cons_append]
    exact skipSpace_after hb hspace (more ++ rest)
  obtain ⟨j, negative, digits, hj, hread, ⟨rfl, hminus⟩ | ⟨rfl, hsame, c, next, rfl, hc⟩⟩ :=
    h.exists_readUnsigned hr
  · rw [hminus] at hskip
    exact ⟨j, hj, by rw [hminus]; simp only [readValue, hskip, hread]⟩
  · exact ⟨j, hj, (readValue_digit (hskip.trans hsame) hc).trans hread⟩

theorem IsNumber.exists_read? (h : IsNumber literal) :
    ∃ j, IsReadAs literal j ∧ read? literal = some j := by
  have hends : EndsNumber [] := nofun
  obtain ⟨j, hj, hread⟩ := h.exists_readValue isBlank_nil hends (2 * literal.length + 1)
  rw [List.nil_append, List.append_nil] at hread
  exact ⟨j, hj, by simp only [read?, steps, hread, Option.bind_eq_bind, Option.bind_some]; rfl⟩

end Countersign.Json
