import Countersign.Text.Numeral
import Mathlib.Algebra.Ring.Nat

/-! Numerals are read back as the numbers they were written for. -/

namespace Countersign.Text

theorem decimalFrom_nil (n : Nat) : decimalFrom n [] = n := (rfl)

theorem decimalFrom_cons (n : Nat) (c : Char) (s : List Char) :
    decimalFrom n (c :: s) = decimalFrom (10 * n + (c.toNat - '0'.toNat)) s := (rfl)

theorem decimalFrom_eq_ofDigitChars (n : Nat) (s : List Char) :
    decimalFrom n s = Nat.ofDigitChars 10 s n := by
  induction s generalizing n with
  | nil => rw [decimalFrom_nil, Nat.ofDigitChars_nil]
  | cons c rest ih => rw [decimalFrom_cons, ih, Nat.ofDigitChars_cons]

theorem decimalFrom_append (n : Nat) (s t : List Char) :
    decimalFrom n (s ++ t) = decimalFrom (decimalFrom n s) t := by
  simp only [decimalFrom_eq_ofDigitChars, Nat.ofDigitChars_append]

theorem decimalFrom_zeros (n k : Nat) :
    decimalFrom n (List.replicate k '0') = 10 ^ k * n := by
  rw [decimalFrom_eq_ofDigitChars, Nat.ofDigitChars_replicate_zero]

@[simp]
theorem decimalFrom_decimal (n : Nat) : decimalFrom 0 (decimal n) = n := by
  rw [decimalFrom_eq_ofDigitChars]
  exact Nat.ofDigitChars_ten_toDigits

theorem decimalFrom_lt {s : List Char} (h : ∀ c ∈ s, isDecimal c = true) (n : Nat) :
    decimalFrom n s < 10 ^ s.length * (n + 1) := by
  induction s generalizing n with
  | nil =>
    rw [decimalFrom_nil]
    simp
  | cons c rest ih =>
    have hc : c.toNat ≤ 57 := by
      have hd := h c List.mem_cons_self
      simp only [isDecimal, decide_eq_true_eq] at hd
      exact hd.2
    have hrest := ih (fun d hd => h d (List.mem_cons_of_mem _ hd)) (10 * n + (c.toNat - '0'.toNat))
    have hdigit : 10 * n + (c.toNat - '0'.toNat) + 1 ≤ 10 * (n + 1) := by
      show 10 * n + (c.toNat - 48) + 1 ≤ 10 * (n + 1)
      omega
    have hle := Nat.mul_le_mul_left (10 ^ rest.length) hdigit
    rw [decimalFrom_cons, List.length_cons, Nat.pow_succ, Nat.mul_assoc]
    exact Nat.lt_of_lt_of_le hrest hle

theorem decimal_ne_nil (n : Nat) : decimal n ≠ [] := Nat.toDigits_ne_nil

theorem isDecimal_of_mem_decimal {n : Nat} {c : Char} (h : c ∈ decimal n) : isDecimal c = true := by
  have hd : c.isDigit = true := Nat.isDigit_of_mem_toDigits (by omega) (by omega) h
  simpa [Char.isDigit, isDecimal, Char.le_def] using hd

/-- Only the numeral of zero starts with a zero. -/
theorem length_decimal_of_head {n : Nat} (h : (decimal n).head? = some '0') :
    (decimal n).length = 1 := by
  have hpos : 0 < (decimal n).length := Nat.length_toDigits_pos
  induction n using Nat.strongRecOn with
  | ind n ih =>
    unfold decimal at h ⊢
    by_cases hn : n < 10
    · simp [Nat.toDigits_of_lt_base hn]
    · rw [Nat.toDigits_of_base_le (by omega) (by omega)] at h
      obtain ⟨c, hc⟩ := Option.isSome_iff_exists.mp
        (List.isSome_head?.mpr (Nat.toDigits_ne_nil (b := 10) (n := n / 10)))
      rw [List.head?_append, hc, Option.some_or, ← hc] at h
      have hlen := ih (n / 10) (by omega) h Nat.length_toDigits_pos
      have hsmall : n / 10 < 10 := by
        have hle := (Nat.length_toDigits_le_iff (b := 10) (n := n / 10) (k := 1) (by omega)
          (by omega)).mp (Nat.le_of_eq hlen)
        simpa using hle
      rw [Nat.toDigits_of_lt_base hsmall] at h
      have hz : n / 10 = 0 := by simpa using h
      omega

@[simp]
theorem decimalFrom_decimalPadded (width n : Nat) : decimalFrom 0 (decimalPadded width n) = n := by
  rw [decimalPadded, decimalFrom_append, decimalFrom_zeros, Nat.mul_zero, decimalFrom_decimal]

theorem isDecimal_of_mem_decimalPadded {width n : Nat} {c : Char}
    (h : c ∈ decimalPadded width n) : isDecimal c = true := by
  rcases List.mem_append.mp h with hz | hd
  · rw [List.eq_of_mem_replicate hz]
    rfl
  · exact isDecimal_of_mem_decimal hd

theorem length_decimalPadded {width n : Nat} (hpos : 0 < width) (h : n < 10 ^ width) :
    (decimalPadded width n).length = width := by
  have hle : (decimal n).length ≤ width :=
    (Nat.length_toDigits_le_iff (by omega) hpos).mpr h
  simp only [decimalPadded, List.length_append, List.length_replicate]
  omega

end Countersign.Text
