import Countersign.Intent.Request
import Countersign.Proofs.Bytes.Hex
import Countersign.Proofs.Text.Numeral
import Mathlib.Data.Nat.Digits.Defs

/-! Digits of a base and the number that they denote. -/

namespace Countersign.Text

/-- The characters are digits of the base, the highest one first, and denote the number. -/
def Denotes (base : Nat) (s : List Char) (n : Nat) : Prop :=
  ∃ digits : List Nat, s.map Hex.digit? = digits.map some ∧ (∀ d ∈ digits, d < base) ∧
    Nat.ofDigits base digits.reverse = n

theorem foldl_eq_ofDigits (base : Nat) (digits : List Nat) :
    digits.foldl (fun n d => base * n + d) 0 = Nat.ofDigits base digits.reverse := by
  rw [Nat.ofDigits_eq_foldr, List.foldr_reverse]
  simp only [Nat.cast_id, Nat.add_comm]

theorem mapM_digit?_eq_some_iff {s : List Char} {digits : List Nat} :
    s.mapM Hex.digit? = some digits ↔ s.map Hex.digit? = digits.map some := by
  induction s generalizing digits with
  | nil => cases digits <;> simp
  | cons c rest ih =>
    rw [List.mapM_cons]
    cases hc : Hex.digit? c with
    | none => cases digits <;> simp [hc]
    | some d =>
      cases digits with
      | nil => simp [hc, Option.bind_eq_some_iff]
      | cons e digits =>
        simp only [hc, Option.bind_eq_bind, Option.bind_some, Option.bind_eq_some_iff,
          Option.pure_def, Option.some.injEq, List.cons.injEq, List.map_cons, ih]
        exact ⟨fun ⟨_, hrest, hd, heq⟩ => ⟨hd, heq ▸ hrest⟩, fun ⟨hd, hrest⟩ => ⟨_, hrest, hd, rfl⟩⟩

theorem Denotes.isDigit {base n : Nat} {s : List Char} (h : Denotes base s n) {c : Char}
    (hc : c ∈ s) : Hex.isDigit c = true := by
  obtain ⟨digits, hmap, _⟩ := h
  have hm : Hex.digit? c ∈ digits.map some := hmap ▸ List.mem_map_of_mem hc
  obtain ⟨d, _, hd⟩ := List.mem_map.mp hm
  rw [Hex.isDigit, ← hd, Option.isSome_some]

theorem Denotes.unique {base n m : Nat} {s : List Char} (h : Denotes base s n)
    (ho : Denotes base s m) : n = m := by
  obtain ⟨digits, hmap, _, rfl⟩ := h
  obtain ⟨others, hothers, _, rfl⟩ := ho
  have hsame : digits = others :=
    List.map_injective_iff.mpr (Option.some_injective Nat) (hmap.symm.trans hothers)
  rw [hsame]

/-! ### Decimal digits -/

theorem digit?_of_isDecimal {c : Char} (h : isDecimal c = true) :
    Hex.digit? c = some (c.toNat - '0'.toNat) := by
  have hc : '0' ≤ c ∧ c ≤ '9' := by simpa [isDecimal] using h
  rw [Hex.digit?, if_pos hc]

theorem isDecimal_of_digit? {c : Char} {d : Nat} (h : Hex.digit? c = some d) (hd : d < 10) :
    isDecimal c = true := by
  have hc : Hex.isDigit c = true := by rw [Hex.isDigit, h, Option.isSome_some]
  exact Hex.of_ascii (P := fun c => ∀ k ∈ Hex.digit? c, k < 10 → isDecimal c = true)
    (by decide +kernel) (Hex.ascii_of_isDigit hc) d h hd

theorem sub_lt_ten {c : Char} (h : isDecimal c = true) : c.toNat - '0'.toNat < 10 := by
  have hc : '0' ≤ c ∧ c ≤ '9' := by simpa [isDecimal] using h
  have hlast : c.toNat ≤ 57 := hc.2
  show c.toNat - 48 < 10
  omega

theorem decimalFrom_eq_foldl (n : Nat) (s : List Char) :
    decimalFrom n s = (s.map fun c => c.toNat - '0'.toNat).foldl (fun n d => 10 * n + d) n := by
  induction s generalizing n with
  | nil => rfl
  | cons c rest ih => rw [decimalFrom_cons, ih, List.map_cons, List.foldl_cons]

theorem denotes_ten_iff {s : List Char} {n : Nat} :
    Denotes 10 s n ↔ s.all isDecimal = true ∧ decimalFrom 0 s = n := by
  rw [decimalFrom_eq_foldl, foldl_eq_ofDigits, List.all_eq_true]
  constructor
  · rintro ⟨digits, hmap, hlt, rfl⟩
    have hdecimal : ∀ c ∈ s, isDecimal c = true := by
      intro c hc
      have hm : Hex.digit? c ∈ digits.map some := hmap ▸ List.mem_map_of_mem hc
      obtain ⟨d, hd, heq⟩ := List.mem_map.mp hm
      exact isDecimal_of_digit? heq.symm (hlt d hd)
    have hvalues : digits = s.map fun c => c.toNat - '0'.toNat := by
      apply List.map_injective_iff.mpr (Option.some_injective Nat)
      rw [← hmap, List.map_map]
      exact List.map_congr_left fun c hc => digit?_of_isDecimal (hdecimal c hc)
    exact ⟨hdecimal, by rw [hvalues]⟩
  · rintro ⟨hall, rfl⟩
    refine ⟨_, ?_, fun d hd => ?_, rfl⟩
    · rw [List.map_map]
      exact List.map_congr_left fun c hc => digit?_of_isDecimal (hall c hc)
    · obtain ⟨c, hc, rfl⟩ := List.mem_map.mp hd
      exact sub_lt_ten (hall c hc)

theorem decimal?_eq_some_iff {s : List Char} {n : Nat} :
    decimal? s = some n ↔ s ≠ [] ∧ Denotes 10 s n := by
  rw [denotes_ten_iff, decimal?]
  by_cases hs : s = []
  · simp [hs]
  · by_cases hall : s.all isDecimal = true <;> simp [hs, hall]

theorem denotes_decimal (n : Nat) : Denotes 10 (decimal n) n :=
  denotes_ten_iff.mpr ⟨List.all_eq_true.mpr fun _ => isDecimal_of_mem_decimal,
    decimalFrom_decimal n⟩

/-! ### Hexadecimal digits -/

theorem denotes_sixteen_iff {s : List Char} {n : Nat} :
    Denotes 16 s n ↔
      (s.mapM Hex.digit?).map (fun digits => digits.foldl (fun n d => 16 * n + d) 0) = some n := by
  rw [Option.map_eq_some_iff]
  constructor
  · rintro ⟨digits, hmap, _, hn⟩
    exact ⟨digits, mapM_digit?_eq_some_iff.mpr hmap, (foldl_eq_ofDigits 16 digits).trans hn⟩
  · rintro ⟨digits, hmap, hn⟩
    have hmap := mapM_digit?_eq_some_iff.mp hmap
    refine ⟨digits, hmap, fun d hd => ?_, (foldl_eq_ofDigits 16 digits).symm.trans hn⟩
    have hm : some d ∈ s.map Hex.digit? := hmap ▸ List.mem_map_of_mem hd
    obtain ⟨c, _, hc⟩ := List.mem_map.mp hm
    exact (Hex.toLower_of_digit? hc).1

theorem Denotes.append {base n d : Nat} {s : List Char} {c : Char} (h : Denotes base s n)
    (hc : Hex.digit? c = some d) (hd : d < base) : Denotes base (s ++ [c]) (base * n + d) := by
  obtain ⟨digits, hmap, hlt, rfl⟩ := h
  refine ⟨digits ++ [d], by simp [hmap, hc], fun e he => ?_, ?_⟩
  · rcases List.mem_append.mp he with he | he
    · exact hlt e he
    · rwa [List.mem_singleton.mp he]
  · rw [List.reverse_append, List.reverse_singleton, List.singleton_append, Nat.ofDigits_cons,
      Nat.add_comm]

/-- The digits of a number denote it. -/
theorem denotes_toDigits {base : Nat} (hone : 1 < base) (hbase : base ≤ 16) (n : Nat) :
    Denotes base (Nat.toDigits base n) n := by
  induction n using Nat.strongRecOn with
  | ind n ih =>
    by_cases hn : n < base
    · have hdigit := Hex.digit?_digitChar (show n < 16 by omega)
      rw [Nat.toDigits_of_lt_base hn]
      exact ⟨[n], by simp [hdigit], by simpa using hn, by simp⟩
    · have hless : n / base < n := Nat.div_lt_self (by omega) hone
      have hmod : n % base < base := Nat.mod_lt n (by omega)
      have happend := (ih (n / base) hless).append
        (Hex.digit?_digitChar (show n % base < 16 by omega)) hmod
      rwa [← Nat.toDigits_of_base_le hone (by omega), Nat.div_add_mod] at happend

end Countersign.Text
