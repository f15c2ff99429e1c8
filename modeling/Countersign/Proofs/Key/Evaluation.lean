import Countersign.Proofs.Bytes.Word
import Countersign.Proofs.Key.Weak
import Countersign.Proofs.Sponge.Rows

/-! Signing that the kernel can follow: polynomials as lists of coefficients, and the hashes that
they are drawn from as numbers. -/

namespace Countersign.Lattice

open Sponge (Stream)

/-! ### Transforms of lists -/

def transformList : Nat → Nat → List Nat → List Nat
  | 0, _, p => p
  | depth + 1, k, p =>
    let half := p.length / 2
    let low := p.take half
    let high := (p.drop half).map fun a => 1753 ^ reverseBits k % modulus * a % modulus
    transformList depth (2 * k) (List.zipWith (fun a b => (a + b) % modulus) low high) ++
      transformList depth (2 * k + 1)
        (List.zipWith (fun a b => (a + modulus - b) % modulus) low high)

def inverseList : Nat → Nat → List Nat → List Nat
  | 0, _, p => p
  | depth + 1, k, p =>
    let half := p.length / 2
    let left := inverseList depth (2 * k) (p.take half)
    let right := inverseList depth (2 * k + 1) (p.drop half)
    List.zipWith (fun a b => (a + b) % modulus) left right ++
      (List.zipWith (fun a b => (a + modulus - b) % modulus) left right).map
        fun a => 1753 ^ (512 - reverseBits k) % modulus * a % modulus

theorem rootPower_eq (n : Nat) : rootPower n = 1753 ^ n % modulus := by
  induction n with
  | zero => rfl
  | succ n ih => rw [rootPower, ih, Nat.mul_mod_mod, Nat.pow_succ']

theorem getD_factors {k : Nat} (h : k < 256) :
    factors.getD k 0 = 1753 ^ reverseBits k % modulus ∧
      inverseFactors.getD k 0 = 1753 ^ (512 - reverseBits k) % modulus := by
  simp [factors, inverseFactors, h, rootPower_eq]

theorem toList_add (p r : Poly) : (p.add r).toList =
    List.zipWith (fun a b => (a + b) % modulus) p.toList r.toList := Array.toList_zipWith

theorem toList_sub (p r : Poly) : (p.sub r).toList =
    List.zipWith (fun a b => (a + modulus - b) % modulus) p.toList r.toList := Array.toList_zipWith

theorem toList_scale (c : Nat) (p : Poly) :
    (p.scale c).toList = p.toList.map fun a => c * a % modulus := Array.toList_map

theorem toList_halves (p : Poly) :
    (p.extract 0 (p.size / 2)).toList = p.toList.take (p.toList.length / 2) ∧
      (p.extract (p.size / 2) p.size).toList = p.toList.drop (p.toList.length / 2) := by
  constructor
  · rw [Array.toList_extract, List.extract_eq_take_drop, List.drop_zero, Nat.sub_zero,
      Array.length_toList]
  · rw [Array.toList_extract, List.extract_eq_take_drop, Array.length_toList,
      List.take_of_length_le (Nat.le_of_eq (by rw [List.length_drop, Array.length_toList]))]

/-- Node `k` stands so high that the nodes `depth` levels below it are less than 512. -/
def IsAbove (depth k : Nat) : Prop := (k + 1) * 2 ^ depth ≤ 512

theorem isAbove_root : IsAbove 8 1 := Nat.le_refl 512

theorem IsAbove.children {depth k : Nat} (h : IsAbove (depth + 1) k) :
    k < 256 ∧ IsAbove depth (2 * k) ∧ IsAbove depth (2 * k + 1) := by
  have hboth : (k + 1) * 2 ^ (depth + 1) = (2 * k + 1 + 1) * 2 ^ depth := by
    rw [Nat.pow_succ', ← Nat.mul_assoc]
    congr 1
    omega
  rw [IsAbove, hboth] at h
  have hone : (2 * k + 1 + 1) * 1 ≤ (2 * k + 1 + 1) * 2 ^ depth :=
    Nat.mul_le_mul_left _ (Nat.two_pow_pos depth)
  exact ⟨by omega, Nat.le_trans (Nat.mul_le_mul_right _ (by omega)) h, h⟩

theorem toList_transformFrom {depth k : Nat} (h : IsAbove depth k) (p : Poly) :
    (transformFrom depth k p).toList = transformList depth k p.toList := by
  induction depth generalizing k p with
  | zero => rfl
  | succ depth ih =>
    obtain ⟨hfactor, hleft, hright⟩ := h.children
    obtain ⟨hlow, hhigh⟩ := toList_halves p
    simp only [transformFrom, transformList, Array.toList_append, ih hleft, ih hright, toList_add,
      toList_sub, toList_scale, hlow, hhigh, (getD_factors hfactor).1]

theorem toList_inverseFrom {depth k : Nat} (h : IsAbove depth k) (p : Poly) :
    (inverseFrom depth k p).toList = inverseList depth k p.toList := by
  induction depth generalizing k p with
  | zero => rfl
  | succ depth ih =>
    obtain ⟨hfactor, hleft, hright⟩ := h.children
    obtain ⟨hlow, hhigh⟩ := toList_halves p
    simp only [inverseFrom, inverseList, Array.toList_append, ih hleft, ih hright, toList_add,
      toList_sub, toList_scale, hlow, hhigh, (getD_factors hfactor).2]

/-- A row of a matrix times a vector, as `matrixTimes` has it. -/
def dotList (row v : List (List Nat)) : List Nat :=
  let products := List.zipWith (List.zipWith fun a b => a * b % modulus) row v
  let sum := products.foldl (List.zipWith fun a b => (a + b) % modulus) (List.replicate 256 0)
  (inverseList 8 1 sum).map fun a => 8347681 * a % modulus

theorem toList_inverse_dot (row v : List Poly) :
    (dot row v).inverse.toList = dotList (row.map Array.toList) (v.map Array.toList) := by
  have hproducts : (List.zipWith Poly.mul row v).map Array.toList =
      List.zipWith (List.zipWith fun a b => a * b % modulus) (row.map Array.toList)
        (v.map Array.toList) := by
    rw [List.map_zipWith, List.zipWith_map]
    congr 1
    funext p r
    exact Array.toList_zipWith
  have hsum : ∀ (products : List Poly) (p : Poly), (products.foldl Poly.add p).toList =
      (products.map Array.toList).foldl (List.zipWith fun a b => (a + b) % modulus) p.toList := by
    intro products
    induction products with
    | nil => exact fun _ => rfl
    | cons r rest ih =>
      intro p
      rw [List.foldl_cons, ih, toList_add]
      rfl
  rw [Poly.inverse, toList_scale, toList_inverseFrom isAbove_root, dot, hsum, hproducts]
  rfl

/-! ### What is drawn -/

def drawByRows (candidates : Bytes → List Nat) : Nat → Nat → Stream → List Nat
  | 0, _, _ => []
  | blocks + 1, count, stream =>
    let found := candidates stream.block
    if count ≤ found.length then found.take count
    else found ++ drawByRows candidates blocks (count - found.length) stream.nextByRows

theorem draw_eq (candidates : Bytes → List Nat) (blocks count : Nat) (stream : Stream) :
    draw candidates blocks count stream = drawByRows candidates blocks count stream := by
  induction blocks generalizing count stream with
  | zero => rfl
  | succ blocks ih =>
    unfold draw drawByRows
    simp only [Stream.next_eq, ih]

def uniformList (seed : Bytes) : List Nat :=
  drawByRows uniformCandidates 64 256 (.ofMessage 21 seed)

theorem toList_uniformPoly (seed : Bytes) : (uniformPoly seed).toList = uniformList seed := by
  rw [uniformPoly, uniformList, draw_eq, Sponge.shake128_eq]

def hashByRows (count : Nat) (bytes : Bytes) : Bytes := (Stream.ofMessage 17 bytes).takeByRows count

theorem hash_eq (count : Nat) (bytes : Bytes) : hash count bytes = hashByRows count bytes := by
  rw [hash, hashByRows, Stream.take_eq, Sponge.shake256_eq]

def maskList (level : Level) (seed : Bytes) (i : Nat) : List Nat :=
  (unpackBits level.maskWidth 256 (hashByRows (32 * level.maskWidth) (seed ++ twoBytes i))).map
    fun d => (level.maskRange + modulus - d) % modulus

theorem map_toList_maskVector (level : Level) (seed : Bytes) :
    (maskVector level seed 0).map Array.toList =
      (List.range level.columns).map (maskList level seed) := by
  rw [maskVector, List.map_map]
  refine List.map_congr_left fun i _ => ?_
  simp only [Function.comp, unpackBelow, maskList, ← hash_eq, hash, Nat.zero_add]

def matrixRow (level : Level) (seed : Bytes) (r : Nat) : List (List Nat) :=
  (List.range level.columns).map fun s => uniformList (seed ++ [UInt8.ofNat s, UInt8.ofNat r])

theorem map_publicMatrix (level : Level) (seed : Bytes) :
    (publicMatrix level seed).map (·.map Array.toList) =
      (List.range level.rows).map (matrixRow level seed) := by
  rw [publicMatrix, List.map_map]
  refine List.map_congr_left fun r _ => ?_
  rw [Function.comp, List.map_map]
  exact List.map_congr_left fun s _ => toList_uniformPoly _

/-! ### Attempts -/

/-- Whether the low part of a coefficient is small, in whichever way it is split. -/
def isLow (level : Level) (a : Nat) : Bool :=
  let r := a % (2 * level.lowRange)
  decide (r < level.lowRange - level.slack) ||
    decide (2 * level.lowRange - r + 1 < level.lowRange - level.slack)

theorem natAbs_split_lt {level : Level} {a : Nat} (h : isLow level a = true) :
    (level.split a).2.natAbs < level.lowRange - level.slack := by
  have hone : 1 < level.lowRange - level.slack := by cases level <;> decide
  have hmod : a % (2 * level.lowRange) < 2 * level.lowRange := Nat.mod_lt _ (by omega)
  simp only [isLow, Bool.or_eq_true, decide_eq_true_eq] at h
  simp only [Level.split, centered]
  split <;> split <;> simp only <;> omega

/-- Whether the first masks are accepted and every polynomial of the matrix is whole. -/
def accepts (level : Level) (seed maskSeed : Bytes) : Bool :=
  let masks := (List.range level.columns).map (maskList level maskSeed)
  let transformed := masks.map (transformList 8 1)
  (masks.all fun p => p.all fun a => decide (magnitude a < level.maskRange - level.slack)) &&
    ((List.range level.rows).map (matrixRow level seed)).all fun row =>
      (row.all fun p => p.length == 256) && (dotList row transformed).all (isLow level)

theorem foldl_max_lt {α : Type} {f : α → Nat} {l : List α} {m b : Nat} (hm : m < b)
    (h : ∀ a ∈ l, f a < b) : l.foldl (fun m a => max m (f a)) m < b := by
  induction l generalizing m with
  | nil => exact hm
  | cons a l ih =>
    exact ih (Nat.max_lt.mpr ⟨hm, h a List.mem_cons_self⟩) fun c hc =>
      h c (List.mem_cons_of_mem a hc)

variable {level : Level} {seed maskSeed : Bytes}

theorem norm_lt_of_accepts (h : accepts level seed maskSeed = true) :
    norm (maskVector level maskSeed 0) < level.maskRange - level.slack := by
  have hpos : 0 < level.maskRange - level.slack := by cases level <;> decide
  refine foldl_max_lt hpos fun p hp => ?_
  rw [Poly.norm, ← Array.foldl_toList]
  refine foldl_max_lt hpos fun a ha => ?_
  have hmem : p.toList ∈ (List.range level.columns).map (maskList level maskSeed) :=
    map_toList_maskVector level maskSeed ▸ List.mem_map_of_mem hp
  have hmasks := List.all_eq_true.mp (Bool.and_eq_true_iff.mp h).1 _ hmem
  exact of_decide_eq_true (List.all_eq_true.mp hmasks a ha)

theorem of_accepts (h : accepts level seed maskSeed = true) {row : List Poly}
    (hrow : row ∈ publicMatrix level seed) : (∀ p ∈ row, p.size = 256) ∧
      ∀ a ∈ (dot row ((maskVector level maskSeed 0).map Poly.transform)).inverse,
        (level.split a).2.natAbs < level.lowRange - level.slack := by
  have hmem : row.map Array.toList ∈ (List.range level.rows).map (matrixRow level seed) :=
    map_publicMatrix level seed ▸ List.mem_map_of_mem hrow
  have hrows := List.all_eq_true.mp (Bool.and_eq_true_iff.mp h).2 _ hmem
  obtain ⟨hwhole, hlow⟩ := Bool.and_eq_true_iff.mp hrows
  refine ⟨fun p hp => ?_, fun a ha => natAbs_split_lt ?_⟩
  · simpa using List.all_eq_true.mp hwhole _ (List.mem_map_of_mem hp)
  · have htransformed : ((maskVector level maskSeed 0).map Poly.transform).map Array.toList =
        ((List.range level.columns).map (maskList level maskSeed)).map (transformList 8 1) := by
      rw [← map_toList_maskVector, List.map_map, List.map_map]
      exact List.map_congr_left fun p _ => toList_transformFrom isAbove_root p
    refine List.all_eq_true.mp hlow a ?_
    rw [← htransformed, ← toList_inverse_dot]
    exact Array.mem_toList_iff.mpr ha

/-! ### A signature -/

/-- Randomness with which the zero key signs the zero message by its first masks. -/
def luckyRandomness : Bytes := zeros 31 ++ [1]

theorem accepts_lucky : accepts .mlDsa44 (zeros 32) (hashByRows 64 (zeros 32 ++ luckyRandomness ++
    hashByRows 64 (hashByRows 64 (zeroKey .mlDsa44 (zeros 32)) ++ framed (zeros 32)))) = true := by
  decide +kernel

theorem size_of_mem_publicMatrix :
    ∀ row ∈ publicMatrix .mlDsa44 (zeros 32), ∀ p ∈ row, p.size = 256 :=
  fun _ hrow => (of_accepts accepts_lucky hrow).1

theorem exists_lucky_signature : ∃ signature, sign? .mlDsa44
    (zeroSecret .mlDsa44 (zeros 32)) (zeros 32) luckyRandomness = some signature := by
  have hseed := length_zeros 32
  have haccepts := accepts_lucky
  simp only [← hash_eq] at haccepts
  obtain ⟨s, hs⟩ := exists_attempt? (norm_lt_of_accepts haccepts) fun p hp => by
    obtain ⟨row, hrow, rfl⟩ := List.mem_map.mp hp
    exact (of_accepts haccepts hrow).2
  exact exists_sign? hseed hs

end Countersign.Lattice
