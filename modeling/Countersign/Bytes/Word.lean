import Countersign.Bytes.Hex

/-! Words of 32 bytes, most significant first, in which calls and domains are laid out. -/

namespace Countersign

/-- The last `count` bytes of a number, most significant first. -/
def bigEndian : Nat → Nat → Bytes
  | 0, _ => []
  | count + 1, n => bigEndian count (n / 256) ++ [UInt8.ofNat n]

def ofBigEndian (bytes : Bytes) : Nat := bytes.foldl (fun n b => 256 * n + b.toNat) 0

def zeros (count : Nat) : Bytes := List.replicate count 0

def word (n : Nat) : Bytes := bigEndian 32 n

/-- How many zeros fill `length` bytes up to whole words. -/
def padding (length : Nat) : Nat := (32 - length % 32) % 32

end Countersign
