import Countersign.Intent.Digest
import Countersign.Json.Reader

/-! Digests in JSON texts. -/

namespace Countersign

/-- The digest in a JSON text. A text that names no digest is refused for that, whatever follows it;
anything else that is wrong has no words of its own. -/
def Digest.ofJson (bytes : Bytes) : Except (Option IntentFault) Digest :=
  match Json.readDocument bytes with
  | .single j whole =>
    match j.string? with
    | none => .error none
    | some s =>
      match Digest.parse s with
      | .error fault => .error (some fault)
      | .ok d => if whole then .ok d else .error none
  | _ => .error none

end Countersign
