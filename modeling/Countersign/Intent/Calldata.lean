import Countersign.Bytes.Word
import Countersign.Intent.Basic
import Countersign.Sponge.Hash
import Countersign.Text.Utf8

/-! The call that carries an intent out, as bytes: a selector that names the function, and the
arguments in words. The address and the value have a word each, the third word says where the
data starts, and there stand its length and the data, filled up with zeros. -/

namespace Countersign

/-- The first four bytes of the hash of a function's signature. -/
structure Selector where
  bytes : Bytes
  length_bytes : bytes.length = 4
  deriving DecidableEq

namespace Selector

def ofSignature (signature : String) : Selector where
  bytes := (Sponge.keccak256 (Text.utf8 signature)).take 4
  length_bytes := by simp [Sponge.length_keccak256]

/-- The signature of the function that executes an intent. -/
def executeSignature : String := "executeTransaction(address,uint256,bytes)"

def execute : Selector := ofSignature executeSignature

def text (s : Selector) : String := Hex.prefixed s.bytes

end Selector

namespace Intent

def arguments (intent : Intent) : Bytes :=
  zeros 12 ++ intent.target.bytes ++ word intent.value.toNat ++ word 0x60 ++
    word intent.data.length ++ intent.data ++ zeros (padding intent.data.length)

def calldata (intent : Intent) : Bytes := Selector.execute.bytes ++ intent.arguments

/-- The intent whose arguments these are; every byte has to be the one that is written for it. -/
def ofArguments? (bytes : Bytes) : Option Intent := do
  let target ← Address.ofBytes? ((bytes.drop 12).take 20)
  let length := ofBigEndian ((bytes.drop 96).take 32)
  let tail := bytes.drop 128
  if 128 ≤ bytes.length ∧ bytes.take 12 = zeros 12 ∧ (bytes.drop 64).take 32 = word 0x60 ∧
      length ≤ tail.length ∧ tail.drop length = zeros (padding length) then
    return ⟨target, BitVec.ofNat 256 (ofBigEndian ((bytes.drop 32).take 32)), tail.take length⟩
  else none

def ofCalldata? (bytes : Bytes) : Option Intent :=
  if bytes.take 4 = Selector.execute.bytes then ofArguments? (bytes.drop 4) else none

end Intent
end Countersign
