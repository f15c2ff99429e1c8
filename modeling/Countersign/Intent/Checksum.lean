import Countersign.Intent.Basic
import Countersign.Sponge.Hash
import Countersign.Text.Utf8

/-! Addresses with a checksum in the case of their letters: a letter is a capital where the hash of
the digits has a digit of eight or more. -/

namespace Countersign

/-- The digits that the bytes of a number are written with. -/
def halves (bytes : Bytes) : List Nat := bytes.flatMap fun b => [b.toNat / 16, b.toNat % 16]

def Address.checksummed (a : Address) : String :=
  let digits := Hex.encode a.bytes
  let hash := halves (Sponge.keccak256 (Text.utf8 (String.ofList digits)))
  String.ofList ('0' :: 'x' ::
    List.zipWith (fun c h => if 8 ≤ h then c.toUpper else c) digits hash)

end Countersign
