import Countersign.Bytes.Hex

/-! An intent: the one call that a treasury is asked to make. -/

namespace Countersign

structure Address where
  bytes : Bytes
  length_bytes : bytes.length = 20
  deriving DecidableEq

abbrev Amount := BitVec 256

structure Intent where
  target : Address
  value : Amount
  data : Bytes
  deriving DecidableEq

namespace Address

def ofBytes? (bytes : Bytes) : Option Address :=
  if h : bytes.length = 20 then some ⟨bytes, h⟩ else none

def text (a : Address) : String := Hex.prefixed a.bytes

end Address

/-- The amount of that number, if it is one of 256 bits. -/
def Amount.ofNat? (n : Nat) : Option Amount :=
  if n < 1 <<< 256 then some (BitVec.ofNat 256 n) else none

end Countersign
