import Countersign.Sponge.Hash

/-! The permutation on numbers. The lanes of a state are machine words, and every step with one of
them is many steps for the kernel. Where a proof comes down to the value of a hash, it computes with
the numbers instead, by the functions that the kernel carries out at once. -/

namespace Countersign.Sponge

/-! ### Rows of numbers -/

/-- Five lanes that stand side by side, as numbers. -/
structure Row where
  a : Nat
  b : Nat
  c : Nat
  d : Nat
  e : Nat

def turned (w left right : Nat) : Nat :=
  Nat.lor (Nat.mod (Nat.shiftLeft w left) (Nat.pow 2 64)) (Nat.shiftRight w right)

namespace Row

def add (r t : Row) : Row :=
  ⟨Nat.xor r.a t.a, Nat.xor r.b t.b, Nat.xor r.c t.c, Nat.xor r.d t.d, Nat.xor r.e t.e⟩

/-- What the sums of the columns add to each lane of a row. -/
def spread (r : Row) : Row :=
  ⟨Nat.xor r.e (turned r.b 1 63), Nat.xor r.a (turned r.c 1 63), Nat.xor r.b (turned r.d 1 63),
    Nat.xor r.c (turned r.e 1 63), Nat.xor r.d (turned r.a 1 63)⟩

/-- The lane `y` where `x` has no bit. -/
def without (x y : Nat) : Nat := Nat.xor y (Nat.land x y)

def combined (r : Row) : Row :=
  ⟨Nat.xor r.a (without r.b r.c), Nat.xor r.b (without r.c r.d), Nat.xor r.c (without r.d r.e),
    Nat.xor r.d (without r.e r.a), Nat.xor r.e (without r.a r.b)⟩

end Row

structure Rows where
  r0 : Row
  r1 : Row
  r2 : Row
  r3 : Row
  r4 : Row

namespace Rows

def mixedWith (s : Rows) (d : Row) : Rows :=
  ⟨s.r0.add d, s.r1.add d, s.r2.add d, s.r3.add d, s.r4.add d⟩

def mixed (s : Rows) : Rows :=
  s.mixedWith ((((s.r0.add s.r1).add s.r2).add s.r3).add s.r4).spread

def moved (s : Rows) : Rows :=
  ⟨⟨s.r0.a, turned s.r1.b 44 20, turned s.r2.c 43 21,
      turned s.r3.d 21 43, turned s.r4.e 14 50⟩,
    ⟨turned s.r0.d 28 36, turned s.r1.e 20 44, turned s.r2.a 3 61,
      turned s.r3.b 45 19, turned s.r4.c 61 3⟩,
    ⟨turned s.r0.b 1 63, turned s.r1.c 6 58, turned s.r2.d 25 39,
      turned s.r3.e 8 56, turned s.r4.a 18 46⟩,
    ⟨turned s.r0.e 27 37, turned s.r1.a 36 28, turned s.r2.b 10 54,
      turned s.r3.c 15 49, turned s.r4.d 56 8⟩,
    ⟨turned s.r0.c 62 2, turned s.r1.d 55 9, turned s.r2.e 39 25,
      turned s.r3.a 41 23, turned s.r4.b 2 62⟩⟩

def combined (s : Rows) (constant : Nat) : Rows :=
  ⟨{ s.r0.combined with a := Nat.xor s.r0.combined.a constant }, s.r1.combined, s.r2.combined,
    s.r3.combined, s.r4.combined⟩

def round (s : Rows) (constant : Nat) : Rows := s.mixed.moved.combined constant

def permute (s : Rows) : Rows := (Lanes.roundConstants.map UInt64.toNat).foldl round s

def lanes (s : Rows) : Lanes :=
  ⟨.ofNat s.r0.a, .ofNat s.r0.b, .ofNat s.r0.c, .ofNat s.r0.d, .ofNat s.r0.e,
    .ofNat s.r1.a, .ofNat s.r1.b, .ofNat s.r1.c, .ofNat s.r1.d, .ofNat s.r1.e,
    .ofNat s.r2.a, .ofNat s.r2.b, .ofNat s.r2.c, .ofNat s.r2.d, .ofNat s.r2.e,
    .ofNat s.r3.a, .ofNat s.r3.b, .ofNat s.r3.c, .ofNat s.r3.d, .ofNat s.r3.e,
    .ofNat s.r4.a, .ofNat s.r4.b, .ofNat s.r4.c, .ofNat s.r4.d, .ofNat s.r4.e⟩

end Rows

def Lanes.rows (s : Lanes) : Rows :=
  ⟨⟨s.l0.toNat, s.l1.toNat, s.l2.toNat, s.l3.toNat, s.l4.toNat⟩,
    ⟨s.l5.toNat, s.l6.toNat, s.l7.toNat, s.l8.toNat, s.l9.toNat⟩,
    ⟨s.l10.toNat, s.l11.toNat, s.l12.toNat, s.l13.toNat, s.l14.toNat⟩,
    ⟨s.l15.toNat, s.l16.toNat, s.l17.toNat, s.l18.toNat, s.l19.toNat⟩,
    ⟨s.l20.toNat, s.l21.toNat, s.l22.toNat, s.l23.toNat, s.l24.toNat⟩⟩

/-! ### The same permutation -/

theorem toNat_xor (v w : UInt64) : (v ^^^ w).toNat = Nat.xor v.toNat w.toNat := UInt64.toNat_xor v w

theorem toNat_without (v w : UInt64) : (~~~v &&& w).toNat = Row.without v.toNat w.toNat := by
  have hwords : ~~~v &&& w = w ^^^ (v &&& w) := by
    apply UInt64.toBitVec_inj.mp
    ext i hi
    simp only [UInt64.toBitVec_and, UInt64.toBitVec_not, UInt64.toBitVec_xor, BitVec.getElem_and,
      BitVec.getElem_not, BitVec.getElem_xor]
    cases v.toBitVec[i] <;> cases w.toBitVec[i] <;> rfl
  rw [hwords, toNat_xor, UInt64.toNat_and]
  rfl

theorem toNat_rotate (w : UInt64) {n : UInt64} (hpos : 0 < n.toNat) (hn : n.toNat < 64) :
    (rotate w n).toNat = turned w.toNat n.toNat (64 - n.toNat) := by
  have hrest : (64 - n).toNat = 64 - n.toNat :=
    UInt64.toNat_sub_of_le 64 n (UInt64.le_iff_toNat_le.mpr (Nat.le_of_lt hn))
  have hleft : n.toNat % 64 = n.toNat := Nat.mod_eq_of_lt hn
  have hright : (64 - n.toNat) % 64 = 64 - n.toNat := Nat.mod_eq_of_lt (by omega)
  rw [rotate, UInt64.toNat_or, UInt64.toNat_shiftLeft, UInt64.toNat_shiftRight, hrest, hleft,
    hright]
  rfl

namespace Lanes

theorem rows_round (s : Lanes) (constant : UInt64) :
    (s.round constant).rows = s.rows.round constant.toNat := by
  simp (disch := decide) only [rows, round, Rows.round, Rows.mixed, Rows.mixedWith, Rows.moved,
    Rows.combined, Row.add, Row.spread, Row.combined, toNat_xor, toNat_without, toNat_rotate]
  rfl

theorem lanes_rows (s : Lanes) : s.rows.lanes = s := by
  simp only [rows, Rows.lanes, UInt64.ofNat_toNat]

theorem permute_eq (s : Lanes) : s.permute = s.rows.permute.lanes := by
  have hrounds : ∀ (constants : List UInt64) (s : Lanes),
      (constants.foldl round s).rows = (constants.map UInt64.toNat).foldl Rows.round s.rows := by
    intro constants
    induction constants with
    | nil => exact fun s => rfl
    | cons constant rest ih =>
      intro s
      rw [List.foldl_cons, ih, rows_round]
      rfl
  rw [Rows.permute, ← hrounds, lanes_rows]
  rfl

end Lanes

/-! ### Streams -/

def absorbByRows (lanes : Nat) (marker : UInt8) : Nat → Bytes → Lanes → Lanes
  | 0, rest, s =>
    (s.add (blockLanes lanes (pad (8 * lanes) marker rest)).toArray).rows.permute.lanes
  | blocks + 1, bytes, s =>
    absorbByRows lanes marker blocks (bytes.drop (8 * lanes))
      (s.add (blockLanes lanes (bytes.take (8 * lanes))).toArray).rows.permute.lanes

theorem absorb_eq (lanes : Nat) (marker : UInt8) (blocks : Nat) (bytes : Bytes) (s : Lanes) :
    absorb lanes marker blocks bytes s = absorbByRows lanes marker blocks bytes s := by
  induction blocks generalizing bytes s with
  | zero => exact Lanes.permute_eq _
  | succ blocks ih => rw [absorb, absorbByRows, Lanes.permute_eq, ih]

namespace Stream

/-- The stream that a message gives, with `lanes` lanes a block. -/
def ofMessage (lanes : Nat) (message : Bytes) : Stream :=
  ⟨lanes, absorbByRows lanes 0x1f (message.length / (8 * lanes)) message {}⟩

def nextByRows (s : Stream) : Stream := { s with state := s.state.rows.permute.lanes }

def blocksByRows (s : Stream) : Nat → Bytes
  | 0 => []
  | n + 1 => s.block ++ s.nextByRows.blocksByRows n

def takeByRows (s : Stream) (count : Nat) : Bytes :=
  (s.blocksByRows ((count + 8 * s.lanes - 1) / (8 * s.lanes))).take count

theorem next_eq (s : Stream) : s.next = s.nextByRows := by
  rw [next, nextByRows, Lanes.permute_eq]

theorem blocks_eq (s : Stream) (n : Nat) : s.blocks n = s.blocksByRows n := by
  induction n generalizing s with
  | zero => rfl
  | succ n ih => rw [blocks, blocksByRows, next_eq, ih]

theorem take_eq (s : Stream) (count : Nat) : s.take count = s.takeByRows count := by
  rw [take, takeByRows, blocks_eq]

end Stream

theorem shake128_eq (message : Bytes) : shake128 message = .ofMessage 21 message := by
  rw [shake128, absorbed, absorb_eq, Stream.ofMessage]

theorem shake256_eq (message : Bytes) : shake256 message = .ofMessage 17 message := by
  rw [shake256, absorbed, absorb_eq, Stream.ofMessage]

end Countersign.Sponge
