import Mathlib.Algebra.Group.Nat.Defs
import Countersign.Lattice.Packing

/-! Numbers packed into bytes. Coefficients of a fixed width are read back as they were written, and
so is a secret key of coefficients that are small enough. -/

namespace Countersign.Lattice

/-! ### Bits -/

theorem ofDigits_cons (width d : Nat) (digits : List Nat) :
    ofDigits width (d :: digits) = d + 2 ^ width * ofDigits width digits := by
  rw [ofDigits, List.foldr_cons, Nat.shiftLeft_eq, Nat.mul_comm]
  rfl

theorem toDigits_succ (width count n : Nat) : toDigits width (count + 1) n =
    n % 2 ^ width :: toDigits width count (n / 2 ^ width) := by
  rw [toDigits, Nat.one_shiftLeft, Nat.shiftRight_eq_div_pow]

theorem length_toDigits (width count n : Nat) : (toDigits width count n).length = count := by
  induction count generalizing n with
  | zero => rfl
  | succ count ih => rw [toDigits_succ, List.length_cons, ih]

theorem lt_of_mem_toDigits {width count n d : Nat} (h : d ∈ toDigits width count n) :
    d < 2 ^ width := by
  induction count generalizing n with
  | zero => exact nomatch h
  | succ count ih =>
    rw [toDigits_succ] at h
    rcases List.mem_cons.mp h with rfl | h
    · exact Nat.mod_lt _ (Nat.two_pow_pos width)
    · exact ih h

theorem ofDigits_toDigits {width count n : Nat} (h : n < 2 ^ (width * count)) :
    ofDigits width (toDigits width count n) = n := by
  induction count generalizing n with
  | zero =>
    rw [Nat.mul_zero, Nat.pow_zero] at h
    rw [toDigits, ofDigits, List.foldr_nil]
    omega
  | succ count ih =>
    rw [Nat.mul_succ, Nat.pow_add] at h
    rw [toDigits_succ, ofDigits_cons, ih (Nat.div_lt_of_lt_mul (by rwa [Nat.mul_comm])),
      Nat.mod_add_div]

theorem ofDigits_lt {width : Nat} {digits : List Nat} (h : ∀ d ∈ digits, d < 2 ^ width) :
    ofDigits width digits < 2 ^ (width * digits.length) := by
  induction digits with
  | nil => exact Nat.one_pos
  | cons d digits ih =>
    have hd := h d List.mem_cons_self
    have hrest := ih fun b hb => h b (List.mem_cons_of_mem _ hb)
    rw [ofDigits_cons, List.length_cons, Nat.mul_succ, Nat.pow_add, Nat.mul_comm (2 ^ _) (2 ^ _)]
    calc d + 2 ^ width * ofDigits width digits
        _ < 2 ^ width * (ofDigits width digits + 1) := by
          rw [Nat.mul_succ]
          omega
        _ ≤ 2 ^ width * 2 ^ (width * digits.length) := Nat.mul_le_mul_left _ hrest

theorem toDigits_ofDigits {width : Nat} {digits : List Nat} (h : ∀ d ∈ digits, d < 2 ^ width) :
    toDigits width digits.length (ofDigits width digits) = digits := by
  induction digits with
  | nil => rfl
  | cons d digits ih =>
    have hd := h d List.mem_cons_self
    rw [List.length_cons, toDigits_succ, ofDigits_cons, Nat.add_mul_mod_self_left,
      Nat.mod_eq_of_lt hd, Nat.add_mul_div_left _ _ (Nat.two_pow_pos width),
      Nat.div_eq_of_lt hd, Nat.zero_add, ih fun b hb => h b (List.mem_cons_of_mem _ hb)]

theorem length_packBits (width : Nat) (digits : List Nat) :
    (packBits width digits).length = digits.length * width / 8 := by
  rw [packBits, List.length_map, length_toDigits]

/-- Coefficients that fill up whole bytes are read back as they were. -/
theorem unpackBits_packBits {width : Nat} {digits : List Nat} (h : ∀ d ∈ digits, d < 2 ^ width)
    (h8 : 8 ∣ digits.length * width) :
    unpackBits width digits.length (packBits width digits) = digits := by
  obtain ⟨n, hn⟩ := h8
  have hlt := ofDigits_lt h
  have hbytes : ∀ k ∈ toDigits 8 n (ofDigits width digits), (UInt8.toNat ∘ UInt8.ofNat) k = k := by
    intro k hk
    have hsmall : k < 256 := lt_of_mem_toDigits hk
    rw [Function.comp_apply, UInt8.toNat_ofNat', Nat.mod_eq_of_lt hsmall]
  rw [Nat.mul_comm, hn] at hlt
  rw [unpackBits, packBits, hn, Nat.mul_div_cancel_left n (by decide), List.map_map,
    List.map_congr_left hbytes, List.map_id', ofDigits_toDigits hlt, toDigits_ofDigits h]

theorem length_flatMap_of_length {α : Type} {size : Nat} {f : α → Bytes} {l : List α}
    (h : ∀ a ∈ l, (f a).length = size) : (l.flatMap f).length = l.length * size := by
  induction l with
  | nil => simp
  | cons a l ih =>
    rw [List.flatMap_cons, List.length_append, h a List.mem_cons_self,
      ih fun b hb => h b (List.mem_cons_of_mem _ hb), List.length_cons, Nat.succ_mul, Nat.add_comm]

theorem pieces_flatMap {α : Type} (size : Nat) {f : α → Bytes} {l : List α}
    (h : ∀ a ∈ l, (f a).length = size) (rest : Bytes) :
    pieces size l.length (l.flatMap f ++ rest) = l.map f := by
  induction l with
  | nil => rfl
  | cons a l ih =>
    have ha := h a List.mem_cons_self
    rw [List.length_cons, pieces, List.flatMap_cons, List.append_assoc, List.take_left' ha,
      List.drop_left' ha, ih fun b hb => h b (List.mem_cons_of_mem _ hb), List.map_cons]

/-! ### Coefficients near zero -/

/-- The distance of each coefficient below `top` fits in the width. -/
structure IsNear (width top : Nat) (p : Poly) : Prop where
  size : p.size = 256
  lt : ∀ a ∈ p, a < modulus ∧ (top + modulus - a) % modulus < 2 ^ width

variable {width top : Nat}

theorem sub_sub_mod {top a : Nat} (ht : top < modulus) (ha : a < modulus) :
    (top + modulus - (top + modulus - a) % modulus) % modulus = a := by
  rcases Nat.lt_or_ge top a with h | h
  · rw [Nat.mod_eq_of_lt (by omega : top + modulus - a < modulus), Nat.sub_sub_self (by omega),
      Nat.mod_eq_of_lt ha]
  · have hfirst : top + modulus - a = top - a + modulus := by omega
    have hsecond : top + modulus - (top - a) = a + modulus := by omega
    rw [hfirst, Nat.add_mod_right, Nat.mod_eq_of_lt (by omega : top - a < modulus), hsecond,
      Nat.add_mod_right, Nat.mod_eq_of_lt ha]

/-- A polynomial that is near enough is read back as it was. -/
theorem IsNear.unpackBelow_packBelow {p : Poly} (h : IsNear width top p) (ht : top < modulus) :
    unpackBelow width top (packBelow width top p) = p := by
  have hdigits : ∀ d ∈ p.toList.map fun a => (top + modulus - a) % modulus, d < 2 ^ width := by
    intro d hd
    obtain ⟨a, ha, rfl⟩ := List.mem_map.mp hd
    exact (h.lt a (Array.mem_toList_iff.mp ha)).2
  have hlength : (p.toList.map fun a => (top + modulus - a) % modulus).length = 256 := by
    rw [List.length_map, Array.length_toList, h.size]
  have h8 : 8 ∣ (p.toList.map fun a => (top + modulus - a) % modulus).length * width := by
    rw [hlength]
    omega
  have hread := unpackBits_packBits hdigits h8
  rw [hlength] at hread
  have hback : p.toList.map ((fun d => (top + modulus - d) % modulus) ∘
      fun a => (top + modulus - a) % modulus) = p.toList := by
    refine (List.map_congr_left fun a ha => ?_).trans (List.map_id _)
    rw [Function.comp_apply, sub_sub_mod ht (h.lt a (Array.mem_toList_iff.mp ha)).1, id_eq]
  rw [unpackBelow, packBelow, hread, List.map_map, hback, Array.toArray_toList]

theorem IsNear.length_packBelow {p : Poly} (h : IsNear width top p) :
    (packBelow width top p).length = 32 * width := by
  rw [packBelow, length_packBits, List.length_map, Array.length_toList, h.size]
  omega

theorem length_flatMap_packBelow {v : List Poly} (h : ∀ p ∈ v, IsNear width top p) :
    (v.flatMap (packBelow width top)).length = v.length * (32 * width) :=
  length_flatMap_of_length fun p hp => (h p hp).length_packBelow

theorem pieces_packBelow {v : List Poly} (h : ∀ p ∈ v, IsNear width top p) (ht : top < modulus)
    (rest : Bytes) : (pieces (32 * width) v.length (v.flatMap (packBelow width top) ++ rest)).map
      (unpackBelow width top) = v := by
  rw [pieces_flatMap (32 * width) fun p hp => (h p hp).length_packBelow, List.map_map]
  refine (List.map_congr_left fun p hp => ?_).trans (List.map_id v)
  rw [Function.comp_apply, (h p hp).unpackBelow_packBelow ht, id_eq]

theorem isNear_unpackBelow (ht : top < modulus) (hw : 2 ^ width ≤ modulus) (bytes : Bytes) :
    IsNear width top (unpackBelow width top bytes) := by
  refine ⟨by simp [unpackBelow, unpackBits, length_toDigits], fun a ha => ?_⟩
  obtain ⟨d, hd, rfl⟩ := List.mem_map.mp (List.mem_toArray.mp ha)
  have hsmall := lt_of_mem_toDigits hd
  rw [sub_sub_mod ht (Nat.lt_of_lt_of_le hsmall hw)]
  exact ⟨Nat.mod_lt _ (by decide), hsmall⟩

/-! ### Secret keys -/

theorem Level.bounds_lt (level : Level) : level.secretBound < modulus ∧ level.maskRange < modulus ∧
    2 ^ level.maskWidth ≤ modulus := by
  cases level <;> decide

/-- A secret key whose coefficients are near enough is read back as it was. -/
theorem SecretKey.decode_encode {level : Level} {key : SecretKey} (hseed : key.seed.length = 32)
    (hmask : key.maskSeed.length = 32) (hhash : key.publicHash.length = 64)
    (hfirst : key.first.length = level.columns ∧
      ∀ p ∈ key.first, IsNear level.secretWidth level.secretBound p)
    (hsecond : key.second.length = level.rows ∧
      ∀ p ∈ key.second, IsNear level.secretWidth level.secretBound p)
    (hlow : key.low.length = level.rows ∧ ∀ p ∈ key.low, IsNear 13 4096 p) :
    decode level (encode level key) = key := by
  have htop := level.bounds_lt.1
  have h64 : ∀ rest, (key.seed ++ (key.maskSeed ++ (key.publicHash ++ rest))).drop (32 + 32) =
      key.publicHash ++ rest := by
    intro rest
    rw [← List.drop_drop, List.drop_left' hseed, List.drop_left' hmask]
  have h128 : ∀ rest, (key.seed ++ (key.maskSeed ++ (key.publicHash ++ rest))).drop (64 + 64) =
      rest := by
    intro rest
    rw [← List.drop_drop, h64, List.drop_left' hhash]
  have hfirstBytes := length_flatMap_packBelow hfirst.2
  have hsecondBytes := length_flatMap_packBelow hsecond.2
  have hfirstRead := pieces_packBelow hfirst.2 htop
  have hsecondRead := pieces_packBelow hsecond.2 htop
  have hlowRead := pieces_packBelow hlow.2 (by decide) []
  rw [hfirst.1] at hfirstBytes hfirstRead
  rw [hsecond.1] at hsecondBytes hsecondRead
  rw [hlow.1, List.append_nil] at hlowRead
  simp only [decode, encode, List.append_assoc, h64, h128, List.take_left' hseed,
    List.drop_left' hseed, List.take_left' hmask, List.take_left' hhash,
    List.drop_left' hfirstBytes, List.drop_left' hsecondBytes, hfirstRead, hsecondRead, hlowRead]

end Countersign.Lattice
