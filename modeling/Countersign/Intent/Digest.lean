import Countersign.Bytes.Hex
import Countersign.Intent.Fault
import Countersign.Sponge.Hash
import Countersign.Text.Blank

/-! Digests of intents and their texts. Letter case, blanks around the digits and the prefix make
no difference between two texts of one digest. -/

namespace Countersign

structure Digest where
  bytes : Bytes
  length_bytes : bytes.length = 32
  deriving DecidableEq

namespace Digest

def ofMessage (message : Bytes) : Digest :=
  ⟨Sponge.keccak256 message, Sponge.length_keccak256 message⟩

def text (d : Digest) : String := Hex.prefixed d.bytes

/-- The form in which digest texts are compared: trimmed, in lower case, with `0x` in front. -/
def normalForm (s : String) : String :=
  let lowered := (Text.trim s.toList).map Char.toLower
  match lowered with
  | '0' :: 'x' :: _ => String.ofList lowered
  | _ => String.ofList ('0' :: 'x' :: lowered)

def parse (s : String) : Except IntentFault Digest :=
  match Hex.decode? ((normalForm s).toList.drop 2) with
  | none => .error (.notDigest s)
  | some bytes => if h : bytes.length = 32 then .ok ⟨bytes, h⟩ else .error (.notDigest s)

def IsNamed (d : Digest) (s : String) : Prop := normalForm s = d.text

instance (d : Digest) (s : String) : Decidable (d.IsNamed s) :=
  inferInstanceAs (Decidable (_ = _))

/-- The order of digests is that of their bytes. -/
instance : LT Digest := ⟨fun a b => a.bytes < b.bytes⟩

instance (a b : Digest) : Decidable (a < b) := inferInstanceAs (Decidable (a.bytes < b.bytes))

end Digest
end Countersign
