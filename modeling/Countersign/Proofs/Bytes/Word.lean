import Countersign.Bytes.Word
import Mathlib.Algebra.Group.Nat.Defs
import Mathlib.Data.List.Induction

/-! Numbers in words of 32 bytes. A word tells apart numbers of 256 bits, and bytes that are filled
up to whole words are told apart by their length and what they are filled up to. -/

namespace Countersign

@[simp]
theorem length_bigEndian (count n : Nat) : (bigEndian count n).length = count := by
  induction count generalizing n with
  | zero => rfl
  | succ count ih => rw [bigEndian, List.length_append, ih, List.length_singleton]

@[simp]
theorem length_zeros (count : Nat) : (zeros count).length = count := List.length_replicate

@[simp]
theorem length_word (n : Nat) : (word n).length = 32 := length_bigEndian 32 n

theorem zeros_add (a b : Nat) : zeros (a + b) = zeros a ++ zeros b :=
  List.replicate_append_replicate.symm

theorem ofBigEndian_append_singleton (bytes : Bytes) (b : UInt8) :
    ofBigEndian (bytes ++ [b]) = 256 * ofBigEndian bytes + b.toNat := by
  rw [ofBigEndian, List.foldl_append]
  rfl

theorem ofBigEndian_bigEndian (count n : Nat) :
    ofBigEndian (bigEndian count n) = n % 256 ^ count := by
  induction count generalizing n with
  | zero =>
    rw [Nat.pow_zero, Nat.mod_one]
    rfl
  | succ count ih =>
    have hb : (UInt8.ofNat n).toNat = n % 256 := UInt8.toNat_ofNat'
    rw [bigEndian, ofBigEndian_append_singleton, ih, hb, Nat.pow_succ', Nat.mod_mul, Nat.add_comm]

theorem ofBigEndian_lt (bytes : Bytes) : ofBigEndian bytes < 256 ^ bytes.length := by
  induction bytes using List.reverseRecOn with
  | nil => exact Nat.one_pos
  | append_singleton bytes b ih =>
    have hb := b.toNat_lt
    rw [ofBigEndian_append_singleton, List.length_append, List.length_singleton, Nat.pow_succ']
    omega

theorem bigEndian_ofBigEndian (bytes : Bytes) :
    bigEndian bytes.length (ofBigEndian bytes) = bytes := by
  induction bytes using List.reverseRecOn with
  | nil => rfl
  | append_singleton bytes b ih =>
    have hb := b.toNat_lt
    have hdiv : (256 * ofBigEndian bytes + b.toNat) / 256 = ofBigEndian bytes := by omega
    have hlast : UInt8.ofNat (256 * ofBigEndian bytes + b.toNat) = b := by
      apply UInt8.toNat_inj.mp
      rw [UInt8.toNat_ofNat']
      omega
    rw [ofBigEndian_append_singleton, List.length_append, List.length_singleton, bigEndian, hdiv,
      hlast, ih]

theorem bigEndian_add (a b n : Nat) :
    bigEndian (a + b) n = bigEndian a (n / 256 ^ b) ++ bigEndian b n := by
  induction b generalizing n with
  | zero => simp [bigEndian]
  | succ b ih =>
    have hdiv : n / 256 / 256 ^ b = n / 256 ^ (b + 1) := by
      rw [Nat.div_div_eq_div_mul, Nat.pow_succ']
    rw [← Nat.add_assoc, bigEndian, ih, hdiv, bigEndian, List.append_assoc]

/-- The number that a word holds has 256 bits. -/
theorem mod_eq_of_word {m n : Nat} (h : word m = word n) : m % 2 ^ 256 = n % 2 ^ 256 := by
  have hsize : (2 : Nat) ^ 256 = 256 ^ 32 := by decide
  have hv := congrArg ofBigEndian h
  rwa [word, word, ofBigEndian_bigEndian, ofBigEndian_bigEndian, ← hsize] at hv

theorem eq_of_word {m n : Nat} (hm : m < 2 ^ 256) (hn : n < 2 ^ 256) (h : word m = word n) :
    m = n := by
  have hmod := mod_eq_of_word h
  rwa [Nat.mod_eq_of_lt hm, Nat.mod_eq_of_lt hn] at hmod

theorem ofBigEndian_word {n : Nat} (h : n < 2 ^ 256) : ofBigEndian (word n) = n := by
  have hsize : (2 : Nat) ^ 256 = 256 ^ 32 := by decide
  rw [word, ofBigEndian_bigEndian, ← hsize, Nat.mod_eq_of_lt h]

theorem word_ofBigEndian {bytes : Bytes} (h : bytes.length = 32) :
    word (ofBigEndian bytes) = bytes := by
  rw [word, ← h, bigEndian_ofBigEndian]

theorem ofBigEndian_lt_of_length {bytes : Bytes} (h : bytes.length ≤ 32) :
    ofBigEndian bytes < 2 ^ 256 := by
  have hsize : (2 : Nat) ^ 256 = 256 ^ 32 := by decide
  have hlt := ofBigEndian_lt bytes
  have hle : 256 ^ bytes.length ≤ 256 ^ 32 := Nat.pow_le_pow_right (by decide) h
  omega

/-- A word starts with four zeros if its number needs no more than the other bytes. -/
theorem word_of_lt {n : Nat} (h : n < 2 ^ 224) : word n = zeros 4 ++ bigEndian 28 n := by
  have hsize : (2 : Nat) ^ 224 = 256 ^ 28 := by decide
  have hzero : n / 256 ^ 28 = 0 := Nat.div_eq_of_lt (hsize ▸ h)
  rw [word, show 32 = 4 + 28 from rfl, bigEndian_add, hzero]
  rfl

/-! ### Filling up -/

theorem padding_lt (length : Nat) : padding length < 32 := Nat.mod_lt _ (by decide)

/-- The length of the bytes is known but for multiples of 2^256, and their filled-up length but
for what they are filled up with. -/
theorem eq_of_filled {a b : Bytes} (hw : word a.length = word b.length)
    (h : a ++ zeros (padding a.length) = b ++ zeros (padding b.length)) : a = b := by
  have hmod := mod_eq_of_word hw
  have hsum := congrArg List.length h
  simp only [List.length_append, length_zeros] at hsum
  have ha := padding_lt a.length
  have hb := padding_lt b.length
  have hlength : a.length = b.length := by
    generalize a.length = m at *
    generalize b.length = n at *
    omega
  exact (List.append_inj h hlength).1

end Countersign
