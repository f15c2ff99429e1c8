import Mathlib.Data.Option.Basic
import Countersign.Proofs.Key.Scheme
import Countersign.Proofs.Key.Zeros

/-! Keys whose vectors are zero. What is signed with such a secret key is verified; and it binds
nobody, since the challenge does not count, so that whoever knows the public key can answer with
whatever short response he likes. -/

namespace Countersign.Lattice

variable {level : Level} {seed : Bytes}

def zeroVector (n : Nat) : List Poly := List.replicate n Poly.zero

def zeroKey (level : Level) (seed : Bytes) : Bytes :=
  PublicKey.encode ⟨seed, zeroVector level.rows⟩

/-- The secret key that stores `zeroKey` for its public key. -/
def zeroSecret (level : Level) (seed : Bytes) : Bytes :=
  SecretKey.encode level ⟨seed, seed, hash 64 (zeroKey level seed), zeroVector level.columns,
    zeroVector level.rows, zeroVector level.rows⟩

theorem length_zeroVector (n : Nat) : (zeroVector n).length = n := List.length_replicate

theorem length_hash (level : Level) (bytes : Bytes) :
    (hash level.challengeBytes bytes).length = level.challengeBytes := by
  have hsmall : 0 < level.challengeBytes ∧ level.challengeBytes ≤ 136 := by cases level <;> decide
  have hone : (level.challengeBytes + 8 * 17 - 1) / (8 * 17) = 1 := by omega
  have hblocks : ((Sponge.shake256 bytes).blocks 1).length = 136 := rfl
  show (((Sponge.shake256 bytes).blocks ((level.challengeBytes + 8 * 17 - 1) / (8 * 17))).take
    level.challengeBytes).length = level.challengeBytes
  rw [hone, List.length_take, hblocks, Nat.min_eq_left hsmall.2]

/-! ### Keys -/

theorem length_zero : Poly.zero.toList.length = 256 := by
  rw [Poly.zero, Array.toList_replicate, List.length_replicate]

theorem length_packBits_zero (n : Nat) :
    ∀ p ∈ zeroVector n, (packBits 10 p.toList).length = 320 := by
  intro p hp
  rw [List.eq_of_mem_replicate hp, length_packBits, length_zero]

theorem length_zeroKey (h : seed.length = 32) :
    (zeroKey level seed).length = level.publicKeyBytes := by
  rw [zeroKey, PublicKey.encode, List.length_append,
    length_flatMap_of_length (length_packBits_zero level.rows), length_zeroVector, h,
    Level.publicKeyBytes]

theorem unpackBits_zero (width : Nat) :
    unpackBits width 256 (packBits width Poly.zero.toList) = Poly.zero.toList := by
  have hsmall : ∀ d ∈ Poly.zero.toList, d < 2 ^ width := by
    intro d hd
    rw [Array.eq_of_mem_replicate (Array.mem_toList_iff.mp hd)]
    exact Nat.two_pow_pos width
  have h8 : 8 ∣ Poly.zero.toList.length * width := by
    rw [length_zero]
    omega
  have hread := unpackBits_packBits hsmall h8
  rwa [length_zero] at hread

theorem decode_zeroKey (h : seed.length = 32) :
    PublicKey.decode level (zeroKey level seed) = ⟨seed, zeroVector level.rows⟩ := by
  have hpieces := pieces_flatMap 320 (length_packBits_zero level.rows) []
  rw [length_zeroVector, List.append_nil] at hpieces
  rw [PublicKey.decode, zeroKey, PublicKey.encode, List.take_left' h, List.drop_left' h, hpieces,
    zeroVector, List.map_replicate, List.map_replicate, unpackBits_zero, Array.toArray_toList]

theorem isNear_zeroVector {width top n : Nat} (hwidth : top < 2 ^ width) (htop : top < modulus) :
    (zeroVector n).length = n ∧ ∀ p ∈ zeroVector n, IsNear width top p := by
  refine ⟨length_zeroVector n, fun p hp => ?_⟩
  rw [List.eq_of_mem_replicate hp]
  exact isNear_zero hwidth htop

theorem decode_zeroSecret (h : seed.length = 32) :
    SecretKey.decode level (zeroSecret level seed) = ⟨seed, seed, hash 64 (zeroKey level seed),
      zeroVector level.columns, zeroVector level.rows, zeroVector level.rows⟩ := by
  have hwidth : level.secretBound < 2 ^ level.secretWidth := by cases level <;> decide
  have htop := level.bounds_lt.1
  exact SecretKey.decode_encode h h (length_hash .mlDsa87 _) (isNear_zeroVector hwidth htop)
    (isNear_zeroVector hwidth htop) (isNear_zeroVector (by decide) (by decide))

/-! ### Answers -/

/-- A response that may be sent. -/
structure IsShort (level : Level) (z : List Poly) : Prop where
  length : z.length = level.columns
  near : ∀ p ∈ z, IsNear level.maskWidth level.maskRange p
  norm_lt : norm z < level.maskRange - level.slack

def noHints (level : Level) : List (List Bool) :=
  List.replicate level.rows (List.replicate 256 false)

def highParts (level : Level) (seed : Bytes) (z : List Poly) : List Poly :=
  (matrixTimes (publicMatrix level seed) (z.map Poly.transform)).map (·.map level.high)

/-- What is hashed to the challenge where the key is zero. It does not depend on the challenge. -/
def committed (level : Level) (seed message : Bytes) (z : List Poly) : Bytes :=
  hash 64 (hash 64 (zeroKey level seed) ++ framed message) ++
    encodeHigh level (highParts level seed z)

def answer (level : Level) (seed message : Bytes) (z : List Poly) : Signature :=
  ⟨hash level.challengeBytes (committed level seed message z), z, noHints level⟩

theorem unpackHints?_noHints (level : Level) :
    unpackHints? level (packHints level (noHints level)) = some (noHints level) ∧
      (packHints level (noHints level)).length = level.hintLimit + level.rows := by
  cases level <;> decide +kernel

variable {message : Bytes} {z : List Poly}

theorem decode?_answer (hz : IsShort level z) :
    Signature.decode? level ((answer level seed message z).encode level) =
      some (answer level seed message z) := by
  have hc := length_hash level (committed level seed message z)
  have hlength := length_flatMap_packBelow hz.near
  have hread := pieces_packBelow hz.near level.bounds_lt.2.1
  rw [hz.length] at hlength hread
  simp only [Signature.decode?, Signature.encode, answer, List.append_assoc]
  rw [List.take_left' hc, List.drop_left' hc, List.drop_left' hlength,
    (unpackHints?_noHints level).1, hread]
  rfl

theorem length_answer (hz : IsShort level z) :
    ((answer level seed message z).encode level).length = level.signatureBytes := by
  rw [Signature.encode, answer, List.length_append, List.length_append, length_hash,
    length_flatMap_packBelow hz.near, (unpackHints?_noHints level).2, hz.length,
    Level.signatureBytes, Nat.add_assoc, Nat.add_assoc, Nat.add_assoc]

theorem length_publicMatrix (level : Level) (seed : Bytes) :
    (publicMatrix level seed).length = level.rows := by
  rw [publicMatrix, List.length_map, List.length_range]

theorem length_matrixTimes (level : Level) (seed : Bytes) (v : List Poly) :
    (matrixTimes (publicMatrix level seed) v).length = level.rows := by
  rw [matrixTimes, List.length_map, length_publicMatrix]

/-- The challenge of a signature does not count where the key is zero. -/
theorem rows_eq_matrixTimes (level : Level) (seed c : Bytes) (v : List Poly) :
    List.zipWith (fun row high => ((dot row v).sub
        ((challenge level c).transform.mul (high.scale 8192).transform)).inverse)
      (publicMatrix level seed) (zeroVector level.rows) =
      matrixTimes (publicMatrix level seed) v := by
  have hscale : Poly.scale 8192 Poly.zero = Poly.zero := scale_replicate 8192 256
  rw [zeroVector, zipWith_replicate_right _ (Nat.le_of_eq (length_publicMatrix level seed))]
  simp only [hscale, transform_zero, challenge_mul_zero, (isReduced_dot _ v).sub_zero]
  rfl

theorem useHint_noHints {w : List Poly} (hw : w.length ≤ level.rows) (h : ∀ p ∈ w, p.IsReduced) :
    List.zipWith (fun hints p => (List.zipWith level.useHint hints p.toList).toArray)
      (noHints level) w = w.map (·.map level.high) := by
  rw [List.zipWith_comm, noHints, zipWith_replicate_right _ hw]
  refine List.map_congr_left fun p hp => ?_
  have hsize : p.toList.length ≤ 256 := (h p hp).size_le
  rw [List.zipWith_comm, zipWith_replicate_right _ hsize]
  exact List.map_toArray.symm

/-- Whatever short response is sent, the answer is verified. -/
theorem verify_answer (h : seed.length = 32) (hz : IsShort level z) :
    verify level (zeroKey level seed) message ((answer level seed message z).encode level) =
      true := by
  have hlengths : ¬ ((zeroKey level seed).length ≠ level.publicKeyBytes ∨
      ((answer level seed message z).encode level).length ≠ level.signatureBytes) := by
    rw [length_zeroKey h, length_answer hz]
    simp
  rw [verify, if_neg hlengths, decode?_answer hz]
  simp only [decode_zeroKey h, answer, hz.norm_lt, decide_true, Bool.true_and, beq_iff_eq]
  rw [rows_eq_matrixTimes, useHint_noHints (Nat.le_of_eq (length_matrixTimes level seed _))
    isReduced_of_mem_matrixTimes]
  rfl

/-! ### Signing -/

/-- What signing with `zeroSecret` works with. -/
def zeroSigner (level : Level) (seed message maskSeed : Bytes) : Signer where
  matrix := publicMatrix level seed
  first := zeroVector level.columns
  second := zeroVector level.rows
  low := zeroVector level.rows
  message := hash 64 (hash 64 (zeroKey level seed) ++ framed message)
  maskSeed

theorem hintPlaces_eq_nil {hints : List Bool} (h : ∀ b ∈ hints, b = false) :
    hintPlaces hints = [] := by
  rw [hintPlaces, List.map_eq_nil_iff, List.filter_eq_nil_iff]
  intro place hplace
  rw [h _ (List.fst_mem_of_mem_zipIdx hplace)]
  decide

/-- Hints none of which is set are written alike, however many coefficients there are. -/
theorem packHints_eq {hints : List (List Bool)} (hrows : hints.length = level.rows)
    (h : ∀ row ∈ hints, ∀ b ∈ row, b = false) :
    packHints level hints = packHints level (noHints level) := by
  have hplaces : hints.map hintPlaces = (noHints level).map hintPlaces := by
    rw [noHints, List.map_replicate, hintPlaces_eq_nil fun b hb => List.eq_of_mem_replicate hb,
      List.eq_replicate_iff, List.length_map]
    refine ⟨hrows, fun places hm => ?_⟩
    obtain ⟨row, hrow, rfl⟩ := List.mem_map.mp hm
    exact hintPlaces_eq_nil (h row hrow)
  simp only [packHints, hplaces]

theorem isNear_maskVector {maskSeed : Bytes} {counter : Nat} :
    ∀ p ∈ maskVector level maskSeed counter, IsNear level.maskWidth level.maskRange p := by
  intro p hp
  obtain ⟨_, _, rfl⟩ := List.mem_map.mp hp
  exact isNear_unpackBelow level.bounds_lt.2.1 level.bounds_lt.2.2 _

theorem hint_zero {a : Nat} (h : a < modulus) :
    level.hint ((modulus - 0) % modulus) a = false := by
  have hsum : (a + (modulus - 0) % modulus) % modulus = a := by
    rw [Nat.sub_zero, Nat.mod_self, Nat.add_zero, Nat.mod_eq_of_lt h]
  rw [Level.hint, hsum, bne_self_eq_false]

/-- The hints for `w` where nothing is subtracted from its high parts. -/
def hintsFor (level : Level) (w : List Poly) : List (List Bool) :=
  List.zipWith (fun z r => List.zipWith (fun a b => level.hint ((modulus - a) % modulus) b)
    z.toList r.toList) (zeroVector level.rows) w

/-- No coefficient needs a hint. -/
theorem eq_false_of_mem_hintsFor {w : List Poly} (hw : w.length = level.rows)
    (h : ∀ p ∈ w, p.IsReduced) : ∀ row ∈ hintsFor level w, ∀ b ∈ row, b = false := by
  rw [hintsFor, List.zipWith_comm, zeroVector, zipWith_replicate_right _ (Nat.le_of_eq hw)]
  intro row hrow b hb
  obtain ⟨p, hp, rfl⟩ := List.mem_map.mp hrow
  have hsize : p.toList.length ≤ 256 := (h p hp).size_le
  rw [List.zipWith_comm, Poly.zero, Array.toList_replicate, zipWith_replicate_right _ hsize] at hb
  obtain ⟨a, ha, rfl⟩ := List.mem_map.mp hb
  exact hint_zero ((h p hp).lt a (Array.mem_toList_iff.mp ha))

theorem packHints_hintsFor {w : List Poly} (hw : w.length = level.rows)
    (h : ∀ p ∈ w, p.IsReduced) :
    packHints level (hintsFor level w) = packHints level (noHints level) := by
  refine packHints_eq ?_ (eq_false_of_mem_hintsFor hw h)
  rw [hintsFor, List.length_zipWith, length_zeroVector, hw, Nat.min_self]

theorem filter_hintsFor {w : List Poly} (hw : w.length = level.rows) (h : ∀ p ∈ w, p.IsReduced) :
    (hintsFor level w).flatten.filter id = [] := by
  refine List.filter_eq_nil_iff.mpr fun b hb => ?_
  obtain ⟨row, hrow, hm⟩ := List.mem_flatten.mp hb
  rw [eq_false_of_mem_hintsFor hw h row hrow b hm]
  decide

theorem length_maskVector (level : Level) (maskSeed : Bytes) (counter : Nat) :
    (maskVector level maskSeed counter).length = level.columns := by
  rw [maskVector, List.length_map, List.length_range]

theorem foldl_replicate_of_fixed {α β : Type} {f : β → α → β} {a : α} {b : β} (h : f b a = b)
    (n : Nat) : (List.replicate n a).foldl f b = b := by
  induction n with
  | zero => rfl
  | succ n ih => rw [List.replicate_succ, List.foldl_cons, h, ih]

theorem norm_zero (n : Nat) : norm (zeroVector n) = 0 := by
  have hnorm : Poly.zero.norm = 0 := by
    rw [Poly.norm, ← Array.foldl_toList, Poly.zero, Array.toList_replicate]
    exact foldl_replicate_of_fixed rfl 256
  exact foldl_replicate_of_fixed (by rw [hnorm]; rfl) n

theorem challenge_times_zero (level : Level) (c : Bytes) (n : Nat) :
    (zeroVector n).map (fun p => ((challenge level c).transform.mul p).inverse) = zeroVector n := by
  rw [zeroVector, List.map_replicate, challenge_mul_zero, inverse_zero]

theorem matrixTimes_unchanged (level : Level) (seed : Bytes) (v : List Poly) :
    List.zipWith Poly.add (matrixTimes (publicMatrix level seed) v) (zeroVector level.rows) =
      matrixTimes (publicMatrix level seed) v ∧
    List.zipWith Poly.sub (matrixTimes (publicMatrix level seed) v) (zeroVector level.rows) =
      matrixTimes (publicMatrix level seed) v := by
  have hlength := Nat.le_of_eq (length_matrixTimes level seed v)
  exact ⟨zipWith_zero (fun _ hp => hp.add_zero) hlength isReduced_of_mem_matrixTimes,
    zipWith_zero (fun _ hp => hp.sub_zero) hlength isReduced_of_mem_matrixTimes⟩

theorem response_unchanged (level : Level) (maskSeed : Bytes) (counter : Nat) :
    List.zipWith Poly.add (maskVector level maskSeed counter) (zeroVector level.columns) =
      maskVector level maskSeed counter :=
  zipWith_zero (fun _ hp => hp.add_zero) (Nat.le_of_eq (length_maskVector level maskSeed counter))
    fun p hp => (isNear_maskVector p hp).isReduced

/-- What an attempt gives is an answer, with the masks for a response. -/
theorem of_attempt? {maskSeed : Bytes} {counter : Nat} {s : Signature}
    (h : (zeroSigner level seed message maskSeed).attempt? level counter = some s) :
    ∃ z, IsShort level z ∧ s.encode level = (answer level seed message z).encode level := by
  simp only [Signer.attempt?, zeroSigner, challenge_times_zero, response_unchanged,
    matrixTimes_unchanged, Option.bind_eq_bind, Option.bind_eq_some_iff, Option.guard_eq_some',
    exists_const] at h
  obtain ⟨hnorm, _, _, _, h⟩ := h
  obtain rfl := Option.some.inj h
  have hhints := packHints_hintsFor (length_matrixTimes level seed
    ((maskVector level maskSeed counter).map Poly.transform)) isReduced_of_mem_matrixTimes
  rw [hintsFor] at hhints
  refine ⟨_, ⟨length_maskVector level maskSeed counter, isNear_maskVector, hnorm⟩, ?_⟩
  simp only [Signature.encode, hhints]
  rfl

/-- An attempt succeeds if the masks are short and what they commit to has small low parts. -/
theorem exists_attempt? {maskSeed : Bytes} {counter : Nat}
    (hshort : norm (maskVector level maskSeed counter) < level.maskRange - level.slack)
    (hlow : ∀ p ∈ matrixTimes (publicMatrix level seed)
      ((maskVector level maskSeed counter).map Poly.transform),
      ∀ a ∈ p, (level.split a).2.natAbs < level.lowRange - level.slack) :
    ∃ s, (zeroSigner level seed message maskSeed).attempt? level counter = some s := by
  have hall : ((matrixTimes (publicMatrix level seed)
      ((maskVector level maskSeed counter).map Poly.transform)).all fun p => p.all fun a =>
        (level.split a).2.natAbs < level.lowRange - level.slack) = true :=
    List.all_eq_true.mpr fun p hp =>
      Array.all_eq_true_iff_forall_mem.mpr fun a ha => decide_eq_true (hlow p hp a ha)
  have hhints := filter_hintsFor (length_matrixTimes level seed
    ((maskVector level maskSeed counter).map Poly.transform)) isReduced_of_mem_matrixTimes
  rw [hintsFor] at hhints
  have hpos : 0 < level.lowRange := by cases level <;> decide
  simp only [Signer.attempt?, zeroSigner, challenge_times_zero, response_unchanged,
    matrixTimes_unchanged, Option.bind_eq_bind, guard, hshort, hall, norm_zero, hpos, hhints,
    List.length_nil, Nat.zero_le]
  exact ⟨_, rfl⟩

theorem of_firstOf {maskSeed : Bytes} {tries counter : Nat} {s : Signature}
    (h : (zeroSigner level seed message maskSeed).firstOf level tries counter = some s) :
    ∃ z, IsShort level z ∧ s.encode level = (answer level seed message z).encode level := by
  induction tries generalizing counter with
  | zero => exact nomatch h
  | succ tries ih =>
    unfold Signer.firstOf at h
    split at h
    case h_1 hfound =>
      obtain rfl := Option.some.inj h
      exact of_attempt? hfound
    case h_2 => exact ih h

/-- Signing with the secret key is answering with a short response. -/
theorem exists_answer_of_sign? (hseed : seed.length = 32) {randomness signature : Bytes}
    (h : sign? level (zeroSecret level seed) message randomness = some signature) :
    ∃ z, IsShort level z ∧ signature = (answer level seed message z).encode level := by
  simp only [sign?, decode_zeroSecret hseed, zeroVector, List.map_replicate, transform_zero,
    Option.bind_eq_bind, Option.bind_eq_some_iff] at h
  obtain ⟨s, hs, h⟩ := h
  obtain rfl := Option.some.inj h
  exact of_firstOf hs

theorem verify_of_sign? (hseed : seed.length = 32) {randomness signature : Bytes}
    (h : sign? level (zeroSecret level seed) message randomness = some signature) :
    verify level (zeroKey level seed) message signature = true := by
  obtain ⟨z, hz, rfl⟩ := exists_answer_of_sign? hseed h
  exact verify_answer hseed hz

/-- Signing succeeds as soon as the first attempt does. -/
theorem exists_sign? (hseed : seed.length = 32) {randomness : Bytes} {s : Signature}
    (h : (zeroSigner level seed message (hash 64 (seed ++ randomness ++
      hash 64 (hash 64 (zeroKey level seed) ++ framed message)))).attempt? level 0 = some s) :
    ∃ signature, sign? level (zeroSecret level seed) message randomness = some signature := by
  obtain ⟨tries, htries⟩ : ∃ tries, 65536 / level.columns = tries + 1 :=
    Nat.exists_eq_succ_of_ne_zero (by cases level <;> decide)
  have hfirst : ∀ signer : Signer, signer.attempt? level 0 = some s →
      signer.firstOf level (65536 / level.columns) 0 = some s := by
    intro signer hs
    rw [htries, Signer.firstOf, hs]
  refine ⟨s.encode level, ?_⟩
  simp only [sign?, decode_zeroSecret hseed, zeroVector, List.map_replicate, transform_zero]
  exact congrArg (Option.bind · fun s => some (s.encode level)) (hfirst _ h)

theorem length_zeroSecret (h : seed.length = 32) :
    (zeroSecret level seed).length = level.secretKeyBytes := by
  have hwidth : level.secretBound < 2 ^ level.secretWidth := by cases level <;> decide
  have htop := level.bounds_lt.1
  have hall : ∀ n, ((zeroVector n).flatMap (packBelow level.secretWidth level.secretBound)).length =
      n * (32 * level.secretWidth) := by
    intro n
    obtain ⟨hlength, hnear⟩ := @isNear_zeroVector _ _ n hwidth htop
    rw [length_flatMap_packBelow hnear, hlength]
  have hlow : ((zeroVector level.rows).flatMap (packBelow 13 4096)).length =
      level.rows * 416 := by
    obtain ⟨hlength, hnear⟩ := @isNear_zeroVector 13 4096 level.rows (by decide) (by decide)
    rw [length_flatMap_packBelow hnear, hlength]
  have hhash : (hash 64 (zeroKey level seed)).length = 64 := length_hash .mlDsa87 _
  simp only [zeroSecret, SecretKey.encode, List.length_append, hall, hlow, h, hhash,
    Level.secretKeyBytes, Nat.add_mul]
  omega

theorem dot_zeroVector {row : List Poly} {n : Nat} (hn : row.length ≤ n)
    (h : ∀ p ∈ row, p.size = 256) : dot row (zeroVector n) = Poly.zero := by
  have hproducts : List.zipWith Poly.mul row (zeroVector n) =
      List.replicate row.length Poly.zero := by
    rw [zeroVector, zipWith_replicate_right _ hn,
      List.map_congr_left fun p hp => mul_zero (h p hp)]
    exact List.map_const'
  rw [dot, hproducts]
  exact foldl_replicate_of_fixed isReduced_zero.add_zero row.length

/-- The key that is derived from the secret one, if the polynomials of the matrix are whole. -/
theorem publicKeyOf_zeroSecret (hseed : seed.length = 32)
    (h : ∀ row ∈ publicMatrix level seed, ∀ p ∈ row, p.size = 256) :
    publicKeyOf level (zeroSecret level seed) = zeroKey level seed := by
  have hrow : ∀ row ∈ publicMatrix level seed, row.length ≤ level.columns := by
    intro row hm
    obtain ⟨r, _, rfl⟩ := List.mem_map.mp hm
    simp
  have hproduct : matrixTimes (publicMatrix level seed) (zeroVector level.columns) =
      zeroVector level.rows := by
    rw [matrixTimes, List.map_congr_left fun row hm => by
      rw [dot_zeroVector (hrow row hm) (h row hm), inverse_zero], List.map_const',
      length_publicMatrix]
    rfl
  have hzero : (zeroVector level.columns).map Poly.transform = zeroVector level.columns := by
    rw [zeroVector, List.map_replicate, transform_zero]
  have hsum : List.zipWith Poly.add (zeroVector level.rows) (zeroVector level.rows) =
      zeroVector level.rows :=
    zipWith_zero (fun _ hp => hp.add_zero) (Nat.le_of_eq (length_zeroVector _)) fun p hp => by
      rw [List.eq_of_mem_replicate hp]
      exact isReduced_zero
  have hhigh : (zeroVector level.rows).map (·.map fun a => (splitPower a).1) =
      zeroVector level.rows := by
    rw [zeroVector, List.map_replicate, Poly.zero, Array.map_replicate]
    rfl
  simp only [publicKeyOf, decode_zeroSecret hseed, publicVector, hzero, hproduct, hsum, hhigh]
  rfl

/-! ### Forgery -/

theorem isShort_zeroVector (level : Level) : IsShort level (zeroVector level.columns) := by
  have hbounds : level.maskRange < 2 ^ level.maskWidth ∧ 0 < level.maskRange - level.slack := by
    cases level <;> decide
  obtain ⟨hlength, hnear⟩ := isNear_zeroVector hbounds.1 level.bounds_lt.2.1
  exact ⟨hlength, hnear, (norm_zero level.columns).symm ▸ hbounds.2⟩

/-- A signature over any message, made without any secret. -/
def forged (level : Level) (seed message : Bytes) : Bytes :=
  (answer level seed message (zeroVector level.columns)).encode level

end Countersign.Lattice

namespace Countersign.Scheme

variable {parameterSet : UInt8} {l : Lattice.Level} {seed : Bytes}

theorem verify_forged (hl : level? parameterSet = some l) (h : seed.length = 32)
    (message : Bytes) : verify parameterSet (Lattice.zeroKey l seed) message
      (Lattice.forged l seed message) = true := by
  rw [verify, hl]
  exact Lattice.verify_answer h (Lattice.isShort_zeroVector l)

theorem publicKeyOf_zeroSecret (hl : level? parameterSet = some l) (h : seed.length = 32)
    (hwhole : ∀ row ∈ Lattice.publicMatrix l seed, ∀ p ∈ row, p.size = 256) :
    publicKeyOf parameterSet (Lattice.zeroSecret l seed) = .ok (Lattice.zeroKey l seed) := by
  rw [publicKeyOf, level_of_level? hl, Lattice.length_zeroSecret h]
  simp only [bind, Except.bind, checkLength_self, Lattice.publicKeyOf_zeroSecret h hwhole]
  rfl

theorem sign_of_sign? (hl : level? parameterSet = some l) (h : seed.length = 32)
    {message randomness signature : Bytes}
    (hs : Lattice.sign? l (Lattice.zeroSecret l seed) message randomness = some signature) :
    sign parameterSet (Lattice.zeroSecret l seed) message randomness = .ok signature := by
  rw [sign, level_of_level? hl, Lattice.length_zeroSecret h]
  simp only [bind, Except.bind, checkLength_self, hs]
  rfl

theorem signsValidly_zero (hl : level? parameterSet = some l) (h : seed.length = 32) :
    KeyPair.SignsValidly ⟨Lattice.zeroKey l seed, Lattice.zeroSecret l seed, parameterSet⟩ := by
  intro message randomness signature _ hsign
  obtain ⟨l', hl', hsign⟩ := sign_eq_ok hsign
  obtain rfl := Option.some.inj (hl.symm.trans hl')
  rw [verify, hl]
  exact Lattice.verify_of_sign? h hsign

end Countersign.Scheme
