/-! Why the description of an intent, or the text of a digest, is refused. -/

namespace Countersign

inductive IntentFault where
  | missing (field : String)
  | notHex (field value : String)
  | oddHex (field : String)
  | addressLength (bytes : Nat)
  | notAmount (text : String)
  | notDigest (text : String)
  deriving DecidableEq, Repr

def IntentFault.message : IntentFault → String
  | missing field => s!"missing required field `{field}`"
  | notHex field value => s!"{field} must be 0x-prefixed hex, got `{value}`"
  | oddHex field => s!"{field} has an odd number of hex digits"
  | addressLength bytes => s!"address must be exactly 20 bytes, got {bytes}"
  | notAmount text => s!"value `{text}` is not a non-negative 256-bit integer"
  | notDigest text => s!"digest must be 32 bytes of hex, got `{text}`"

end Countersign
