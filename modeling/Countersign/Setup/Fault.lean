import Countersign.Key.Text

/-! Why the guardians or the settings of a quorum cannot be used. -/

namespace Countersign

inductive SetupFault where
  | missingField (place : Nat) (field : String)
  | duplicateId (id : String)
  | sharedKey (first second : String)
  | unsupportedSet (id : String) (parameterSet : UInt8)
  | badKey (id : String) (fault : KeyFault)
  | invalidValue (field : String) (reason : Option String)
  | unreadable (path : String)
  | unparsable (path : String) (reason : Option String)
  deriving DecidableEq, Repr

/-- A text with the reason for it, if there is one. -/
def withReason (text : String) : Option String → String
  | none => text
  | some reason => text ++ ": " ++ reason

def SetupFault.message : SetupFault → String
  | missingField place field => s!"guardian record #{place} is missing `{field}`"
  | duplicateId id => s!"duplicate guardian id `{id}`"
  | sharedKey first second => s!"guardians `{first}` and `{second}` share the same public key"
  | unsupportedSet id parameterSet =>
    s!"guardian `{id}` declares unsupported parameter set {parameterSet}"
  | badKey id fault => s!"guardian `{id}` public key: {fault.message}"
  | invalidValue field reason => withReason s!"invalid configuration value `{field}`" reason
  | unreadable path => s!"failed reading {path}"
  | unparsable path reason => withReason s!"failed parsing {path}" reason

end Countersign
