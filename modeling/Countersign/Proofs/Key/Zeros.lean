import Countersign.Proofs.Key.Packing
import Countersign.Lattice.Signing

/-! Polynomials that are zero, and those whose coefficients are all reduced: adding zero to one of
these changes nothing, and neither does what the transform and its inverse make of zero. -/

namespace Countersign.Lattice

/-- At most as many coefficients as a polynomial has, each less than the modulus. -/
structure Poly.IsReduced (p : Poly) : Prop where
  size_le : p.size ≤ 256
  lt : ∀ a ∈ p, a < modulus

namespace Poly.IsReduced

variable {p : Poly}

theorem add_zero (h : p.IsReduced) : p.add zero = p := by
  have hsize := h.size_le
  apply Array.ext
  · simp [add, zero, hsize]
  · intro i _ hi
    simp [add, zero, Nat.mod_eq_of_lt (h.lt _ (Array.getElem_mem hi))]

theorem sub_zero (h : p.IsReduced) : p.sub zero = p := by
  have hsize := h.size_le
  apply Array.ext
  · simp [sub, zero, hsize]
  · intro i _ hi
    simp [sub, zero, Nat.mod_eq_of_lt (h.lt _ (Array.getElem_mem hi))]

end Poly.IsReduced

theorem zipWith_replicate_right {α β γ : Type} (f : α → β → γ) {l : List α} {n : Nat}
    (h : l.length ≤ n) (b : β) : List.zipWith f l (List.replicate n b) = l.map (f · b) := by
  induction l generalizing n with
  | nil => rfl
  | cons a l ih =>
    obtain ⟨n, rfl⟩ := Nat.exists_eq_succ_of_ne_zero (Nat.ne_zero_of_lt h)
    rw [List.replicate_succ, List.zipWith_cons_cons, ih (Nat.le_of_succ_le_succ h), List.map_cons]

/-- A vector is left as it is by what leaves each of its polynomials as it is. -/
theorem zipWith_zero {f : Poly → Poly → Poly} (hf : ∀ p : Poly, p.IsReduced → f p Poly.zero = p)
    {v : List Poly} {n : Nat} (hv : v.length ≤ n) (h : ∀ p ∈ v, p.IsReduced) :
    List.zipWith f v (List.replicate n Poly.zero) = v := by
  rw [zipWith_replicate_right f hv]
  exact (List.map_congr_left fun p hp => hf p (h p hp)).trans (List.map_id v)

theorem mod_modulus_lt (a : Nat) : a % modulus < modulus := Nat.mod_lt a (by decide)

theorem isReduced_add {p : Poly} (r : Poly) (h : p.size ≤ 256) : (p.add r).IsReduced := by
  refine ⟨?_, fun a ha => ?_⟩
  · rw [Poly.add, Array.size_zipWith]
    omega
  · obtain ⟨i, hi, rfl⟩ := Array.getElem_of_mem ha
    simp [Poly.add, mod_modulus_lt]

theorem isReduced_scale {p : Poly} (c : Nat) (h : p.size ≤ 256) : (p.scale c).IsReduced := by
  refine ⟨?_, fun a ha => ?_⟩
  · rwa [Poly.scale, Array.size_map]
  · obtain ⟨_, _, rfl⟩ := Array.mem_map.mp ha
    exact mod_modulus_lt _

theorem isReduced_zero : Poly.zero.IsReduced := by
  refine ⟨?_, fun a ha => ?_⟩
  · exact Nat.le_of_eq Array.size_replicate
  · rw [Array.eq_of_mem_replicate ha]
    decide

theorem isReduced_dot (row v : List Poly) : (dot row v).IsReduced := by
  have hall : ∀ (l : List Poly) (p : Poly), p.IsReduced → (l.foldl Poly.add p).IsReduced := by
    intro l
    induction l with
    | nil => exact fun _ h => h
    | cons r l ih => exact fun p h => ih _ (isReduced_add r h.size_le)
  exact hall _ _ isReduced_zero

theorem size_inverseFrom_le (depth k : Nat) (p : Poly) : (inverseFrom depth k p).size ≤ p.size := by
  induction depth generalizing k p with
  | zero => exact Nat.le_refl _
  | succ depth ih =>
    have hleft := ih (2 * k) (p.extract 0 (p.size / 2))
    have hright := ih (2 * k + 1) (p.extract (p.size / 2) p.size)
    rw [Array.size_extract] at hleft hright
    rw [inverseFrom, Array.size_append]
    simp only [Poly.add, Poly.sub, Poly.scale, Array.size_zipWith, Array.size_map]
    omega

theorem isReduced_inverse {p : Poly} (h : p.IsReduced) : p.inverse.IsReduced :=
  isReduced_scale _ (Nat.le_trans (size_inverseFrom_le 8 1 p) h.size_le)

theorem isReduced_of_mem_matrixTimes {rows : List (List Poly)} {v : List Poly} :
    ∀ p ∈ matrixTimes rows v, p.IsReduced := by
  intro p hp
  obtain ⟨row, _, rfl⟩ := List.mem_map.mp hp
  exact isReduced_inverse (isReduced_dot row v)

theorem IsNear.isReduced {width top : Nat} {p : Poly} (h : IsNear width top p) : p.IsReduced :=
  ⟨Nat.le_of_eq h.size, fun a ha => (h.lt a ha).1⟩

theorem isNear_zero {width top : Nat} (hwidth : top < 2 ^ width) (htop : top < modulus) :
    IsNear width top Poly.zero := by
  refine ⟨Array.size_replicate, fun a ha => ?_⟩
  rw [Array.eq_of_mem_replicate ha, Nat.sub_zero, Nat.add_mod_right, Nat.mod_eq_of_lt htop]
  exact ⟨by decide, hwidth⟩

/-! ### The transform of zero -/

theorem add_replicate (n : Nat) :
    Poly.add (Array.replicate n 0) (Array.replicate n 0) = Array.replicate n 0 := by
  rw [Poly.add, Array.zipWith_replicate, Nat.min_self]
  rfl

theorem sub_replicate (n : Nat) :
    Poly.sub (Array.replicate n 0) (Array.replicate n 0) = Array.replicate n 0 := by
  rw [Poly.sub, Array.zipWith_replicate, Nat.min_self]
  rfl

theorem scale_replicate (c n : Nat) :
    Poly.scale c (Array.replicate n 0) = Array.replicate n 0 := by
  rw [Poly.scale, Array.map_replicate, Nat.mul_zero, Nat.zero_mod]

theorem half_pow_succ (depth m : Nat) : 2 ^ (depth + 1) * m = 2 ^ depth * m + 2 ^ depth * m ∧
    (2 ^ depth * m + 2 ^ depth * m) / 2 = 2 ^ depth * m := by
  rw [Nat.pow_succ, Nat.mul_right_comm]
  omega

theorem transformFrom_zero (depth k m : Nat) :
    transformFrom depth k (Array.replicate (2 ^ depth * m) 0) =
      Array.replicate (2 ^ depth * m) 0 := by
  induction depth generalizing k with
  | zero => rfl
  | succ depth ih =>
    obtain ⟨htwo, hhalf⟩ := half_pow_succ depth m
    rw [htwo, transformFrom]
    simp only [Array.size_replicate, hhalf, Array.extract_replicate, Nat.min_self, Nat.sub_zero,
      Nat.add_sub_cancel, Nat.min_eq_left (Nat.le_add_right _ _), scale_replicate, add_replicate,
      sub_replicate, ih, Array.replicate_append_replicate]

theorem inverseFrom_zero (depth k m : Nat) :
    inverseFrom depth k (Array.replicate (2 ^ depth * m) 0) =
      Array.replicate (2 ^ depth * m) 0 := by
  induction depth generalizing k with
  | zero => rfl
  | succ depth ih =>
    obtain ⟨htwo, hhalf⟩ := half_pow_succ depth m
    rw [htwo, inverseFrom]
    simp only [Array.size_replicate, hhalf, Array.extract_replicate, Nat.min_self, Nat.sub_zero,
      Nat.add_sub_cancel, Nat.min_eq_left (Nat.le_add_right _ _), scale_replicate, add_replicate,
      sub_replicate, ih, Array.replicate_append_replicate]

theorem transform_zero : Poly.zero.transform = Poly.zero := transformFrom_zero 8 1 1

theorem inverse_zero : Poly.zero.inverse = Poly.zero := by
  have hzero : inverseFrom 8 1 Poly.zero = Poly.zero := inverseFrom_zero 8 1 1
  rw [Poly.inverse, hzero, Poly.zero, scale_replicate]

theorem mul_zero {c : Poly} (h : c.size = 256) : c.mul Poly.zero = Poly.zero := by
  apply Array.ext
  · simp [Poly.mul, Poly.zero, h]
  · intro i hi _
    simp [Poly.mul, Poly.zero]

/-! ### Challenges -/

theorem size_transformFrom (depth k : Nat) {p : Poly} (h : 2 ^ depth ∣ p.size) :
    (transformFrom depth k p).size = p.size := by
  induction depth generalizing k p with
  | zero => rfl
  | succ depth ih =>
    obtain ⟨m, hm⟩ := h
    rw [(half_pow_succ depth m).1] at hm
    have hhalf : p.size / 2 = 2 ^ depth * m := by omega
    have hlow : (p.extract 0 (p.size / 2)).size = 2 ^ depth * m := by
      rw [Array.size_extract]
      omega
    have hhigh : (p.extract (p.size / 2) p.size).size = 2 ^ depth * m := by
      rw [Array.size_extract]
      omega
    rw [transformFrom, Array.size_append, ih, ih]
    all_goals simp only [Poly.add, Poly.sub, Poly.scale, Array.size_zipWith, Array.size_map, hlow,
      hhigh, Nat.min_self, Nat.dvd_mul_right]
    omega

theorem size_transform {p : Poly} (h : p.size = 256) : p.transform.size = 256 := by
  rw [Poly.transform, size_transformFrom 8 1 (by omega), h]

theorem size_placeSigns (ball : Poly) (position : Nat) (signs : List Bool) (bytes : Bytes) :
    (placeSigns ball position signs bytes).size = ball.size := by
  fun_induction placeSigns ball position signs bytes with
  | case1 ball position sign signs b bytes _ moved placed ih =>
    rw [ih, Array.size_setIfInBounds, Array.size_setIfInBounds]
  | case2 ball position sign signs b bytes _ ih => exact ih
  | case3 => rfl

theorem size_challenge (level : Level) (hash : Bytes) : (challenge level hash).size = 256 := by
  rw [challenge, size_placeSigns]
  simp [Poly.zero]

theorem challenge_mul_zero (level : Level) (hash : Bytes) :
    (challenge level hash).transform.mul Poly.zero = Poly.zero :=
  mul_zero (size_transform (size_challenge level hash))

end Countersign.Lattice
