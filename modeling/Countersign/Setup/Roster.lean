import Countersign.Envelope.Basic
import Countersign.Key.Scheme
import Countersign.Numeric.Binary64
import Countersign.Setup.Fault

/-! The guardians who may approve intents. Those who are revoked take no part. No two of the others
share a name or a key, or one key could count twice. -/

namespace Countersign

structure Guardian where
  id : String
  publicKey : Bytes
  parameterSet : UInt8
  /-- Noted, and not counted. -/
  weight : Option Binary64 := none
  revoked : Bool := false
  deriving DecidableEq

/-- The guardians who take part, in their order, and where each name and each key stands. -/
structure Roster where
  guardians : List Guardian := []
  idIndex : List (String × Nat) := []
  keyIndex : List (Bytes × Nat) := []

namespace Guardian

/-- Refuses a guardian without name, key or known parameter set, whether revoked or not. -/
def check (place : Nat) (g : Guardian) : Except SetupFault Unit :=
  if (Text.trim g.id.toList).isEmpty then .error (.missingField place "id")
  else if g.publicKey.isEmpty then .error (.missingField place "publicKey")
  else if !Scheme.isSupported g.parameterSet then .error (.unsupportedSet g.id g.parameterSet)
  else .ok ()

def checkAll (place : Nat) : List Guardian → Except SetupFault Unit
  | [] => .ok ()
  | g :: rest => (g.check place).bind fun () => checkAll (place + 1) rest

end Guardian

namespace Roster

/-- Adds the next guardian, whose name and key must be new. -/
def add (r : Roster) (g : Guardian) : Except SetupFault Roster :=
  if (r.idIndex.lookup g.id).isSome then .error (.duplicateId g.id)
  else
    match r.keyIndex.lookup g.publicKey with
    | some first => .error (.sharedKey ((r.guardians[first]?.map (·.id)).getD "") g.id)
    | none => .ok {
        guardians := r.guardians ++ [g]
        idIndex := (g.id, r.guardians.length) :: r.idIndex
        keyIndex := (g.publicKey, r.guardians.length) :: r.keyIndex }

def addAll (r : Roster) : List Guardian → Except SetupFault Roster
  | [] => .ok r
  | g :: rest => (r.add g).bind fun r => r.addAll rest

/-- The roster of the guardians that are not revoked. -/
def ofGuardians (guardians : List Guardian) : Except SetupFault Roster :=
  (Guardian.checkAll 0 guardians).bind fun () =>
    ({} : Roster).addAll (guardians.filter (!·.revoked))

def get? (r : Roster) (id : String) : Option Guardian :=
  (r.idIndex.lookup id).bind fun place => r.guardians[place]?

def withKey? (r : Roster) (key : Bytes) : Option Guardian :=
  (r.keyIndex.lookup key).bind fun place => r.guardians[place]?

def contains (r : Roster) (id : String) : Bool := (r.idIndex.lookup id).isSome

/-- The guardian behind an envelope. A name that is stated has to come with the key of that name;
without one the key alone decides. -/
def behind? (r : Roster) (e : Envelope) : Option Guardian :=
  match e.guardianId.bind Text.stated? with
  | some id => (r.get? id).filter (·.publicKey = e.publicKey)
  | none => r.withKey? e.publicKey

end Roster

/-! ### Rosters as text -/

/-- A guardian as a roster file gives it. -/
structure GuardianEntry where
  id : Option String
  publicKey : Option String
  parameterSet : Option UInt8
  weight : Option Binary64
  revoked : Option Bool

namespace GuardianEntry

def form : Json.Form := ⟨["id", "publicKey", "parameterSet", "weight", "revoked"], 5, false⟩

def ofJson? (j : Json) : Option GuardianEntry := do
  let given := form.given j.document
  guard given.whole
  return {
    id := ← Json.optional? Json.string? given 0
    publicKey := ← Json.optional? Json.string? given 1
    parameterSet := (← Json.optional? (Json.below? 256) given 2).map UInt8.ofNat
    weight := ← Json.optional? Binary64.ofJson? given 3
    revoked := ← Json.optional? Json.bool? given 4 }

/-- The guardian of an entry, the `place`th of its roster. -/
def guardian (place : Nat) (entry : GuardianEntry) : Except SetupFault Guardian :=
  match entry.id.bind Text.stated? with
  | none => .error (.missingField place "id")
  | some id =>
    match entry.publicKey with
    | none => .error (.missingField place "publicKey")
    | some key =>
      if (Text.trim key.toList).isEmpty then .error (.missingField place "publicKey")
      else
        match KeyEncoding.auto.decode s!"public key of guardian `{id}`" key with
        | .error fault => .error (.badKey id fault)
        | .ok publicKey => .ok {
            id, publicKey
            parameterSet := entry.parameterSet.getD Scheme.defaultSet
            weight := entry.weight
            revoked := entry.revoked.getD false }

def guardians (place : Nat) : List GuardianEntry → Except SetupFault (List Guardian)
  | [] => .ok []
  | entry :: rest => do
    let g ← entry.guardian place
    return g :: (← guardians (place + 1) rest)

def listOfJson? (bytes : Bytes) : Option (List GuardianEntry) :=
  match Json.read? bytes with
  | some (.array items) => items.mapM ofJson?
  | _ => none

end GuardianEntry

namespace Roster

def ofEntries (entries : List GuardianEntry) : Except SetupFault Roster :=
  (GuardianEntry.guardians 0 entries).bind ofGuardians

def load (disk : Disk) (path : String) : Except SetupFault Roster :=
  match disk.readText? path with
  | none => .error (.unreadable path)
  | some text =>
    match GuardianEntry.listOfJson? (Text.utf8 text) with
    | none => .error (.unparsable path none)
    | some entries => ofEntries entries

end Roster
end Countersign
