import Countersign.Bytes.Hex
import Countersign.Sponge.Permutation

/-! Hashing by absorbing a message into the state block by block and reading output off it: the
digest of 32 bytes that names intents, and the two output streams of any length that the
signature scheme draws its polynomials from. -/

namespace Countersign.Sponge

/-- Eight bytes of a lane, least significant first. -/
def laneBytes (w : UInt64) : Bytes :=
  [w.toUInt8, (w >>> 8).toUInt8, (w >>> 16).toUInt8, (w >>> 24).toUInt8,
   (w >>> 32).toUInt8, (w >>> 40).toUInt8, (w >>> 48).toUInt8, (w >>> 56).toUInt8]

/-- The number that up to eight bytes write, least significant first. -/
def laneOf (bytes : Bytes) : UInt64 := bytes.foldr (fun b w => (w <<< 8) ||| b.toUInt64) 0

/-- The lanes of a block of `lanes * 8` bytes. -/
def blockLanes : Nat → Bytes → List UInt64
  | 0, _ => []
  | lanes + 1, bytes => laneOf (bytes.take 8) :: blockLanes lanes (bytes.drop 8)

/-- Fills the last block up: the marker follows the message, and the block's last bit is set. -/
def pad (rate : Nat) (marker : UInt8) (rest : Bytes) : Bytes :=
  if rest.length + 1 = rate then rest ++ [marker ||| 0x80]
  else rest ++ marker :: List.replicate (rate - rest.length - 2) 0 ++ [0x80]

/-- Absorbs `blocks` whole blocks and then what is left of the message, padded. -/
def absorb (lanes : Nat) (marker : UInt8) : Nat → Bytes → Lanes → Lanes
  | 0, rest, s => (s.add (blockLanes lanes (pad (8 * lanes) marker rest)).toArray).permute
  | blocks + 1, bytes, s =>
    absorb lanes marker blocks (bytes.drop (8 * lanes))
      (s.add (blockLanes lanes (bytes.take (8 * lanes))).toArray).permute

/-- The state after a whole message, with `lanes` lanes a block. -/
def absorbed (lanes : Nat) (marker : UInt8) (message : Bytes) : Lanes :=
  absorb lanes marker (message.length / (8 * lanes)) message {}

/-- The digest of 32 bytes that identifies a message. -/
def keccak256 (message : Bytes) : Bytes :=
  let s := absorbed 17 0x01 message
  laneBytes s.l0 ++ laneBytes s.l1 ++ laneBytes s.l2 ++ laneBytes s.l3

theorem length_keccak256 (message : Bytes) : (keccak256 message).length = 32 := rfl

/-- An output stream: the state whose block comes next, and how many of its lanes a block has. -/
structure Stream where
  lanes : Nat
  state : Lanes

namespace Stream

def block (s : Stream) : Bytes := (s.state.toList.take s.lanes).flatMap laneBytes

def next (s : Stream) : Stream := { s with state := s.state.permute }

def blocks (s : Stream) : Nat → Bytes
  | 0 => []
  | n + 1 => s.block ++ s.next.blocks n

def take (s : Stream) (count : Nat) : Bytes :=
  (s.blocks ((count + 8 * s.lanes - 1) / (8 * s.lanes))).take count

end Stream

def shake128 (message : Bytes) : Stream := ⟨21, absorbed 21 0x1f message⟩

def shake256 (message : Bytes) : Stream := ⟨17, absorbed 17 0x1f message⟩

end Countersign.Sponge
