import Countersign.Intent.Domain
import Countersign.Intent.Request
import Countersign.Setup.Fault

/-! The settings of a quorum: what its approvals are bound to, how many of them are needed, and
where its files are. Relative paths start from the directory of the settings. -/

namespace Countersign

structure Settings where
  chain : Amount
  contract : Address
  domainVersion : UInt32
  functionSignature : String
  bindsSelector : Bool
  threshold : Nat
  rosterPath : String
  journalPath : String
  envelopeDirectory : String
  trailPath : Option String
  deriving DecidableEq

namespace Settings

def domain (s : Settings) : Domain where
  chain := s.chain
  contract := s.contract
  version := s.domainVersion
  selector := Selector.ofSignature s.functionSignature
  bindsSelector := s.bindsSelector

structure Written where
  chain : Option Quantity := none
  contract : Option String := none
  domainVersion : Option UInt32 := none
  functionSignature : Option String := none
  bindsSelector : Option Bool := none
  threshold : Option Nat := none
  rosterPath : Option String := none
  journalPath : Option String := none
  envelopeDirectory : Option String := none
  trailPath : Option String := none

namespace Written

def form : Json.Form where
  fields := ["chainId", "contractAddress", "domainVersion", "functionSignature", "includeSelector",
    "threshold", "registryPath", "ledgerPath", "envelopeDir", "auditLogPath"]
  needed := 10
  closed := true

/-- Takes in a field that is not the chain. -/
def setPlain? (w : Written) : Nat × Json → Option Written
  | (1, j) => (Json.nullable? Json.string? j).map fun s => { w with contract := s }
  | (2, j) => (Json.nullable? (Json.below? (1 <<< 32)) j).map fun n =>
    { w with domainVersion := n.map UInt32.ofNat }
  | (3, j) => (Json.nullable? Json.string? j).map fun s => { w with functionSignature := s }
  | (4, j) => (Json.nullable? Json.bool? j).map fun b => { w with bindsSelector := b }
  | (5, j) => (Json.nullable? (Json.below? (1 <<< 64)) j).map fun n => { w with threshold := n }
  | (6, j) => (Json.nullable? Json.string? j).map fun s => { w with rosterPath := s }
  | (7, j) => (Json.nullable? Json.string? j).map fun s => { w with journalPath := s }
  | (8, j) => (Json.nullable? Json.string? j).map fun s => { w with envelopeDirectory := s }
  | (_, j) => (Json.nullable? Json.string? j).map fun s => { w with trailPath := s }

def setField (w : Written) : Nat × Json → Except Quantity.Fault Written
  | (0, .null) => .ok { w with chain := none }
  | (0, j) => (Quantity.ofJson 1 j).map fun q => { w with chain := some q }
  | field =>
    match w.setPlain? field with
    | some w => .ok w
    | none => .error .illegible

def ofJson (bytes : Bytes) : Except Quantity.Fault Written := do
  let given := form.given (Json.readDocument bytes)
  let w ← given.values.foldlM setField {}
  if given.whole then return w else .error .illegible

end Written

def required {α : Type} (field : String) : Option α → Except SetupFault α
  | some a => .ok a
  | none => .error (.invalidValue field (some "missing"))

def chainOf (q : Quantity) : Except SetupFault Amount :=
  match q.amount with
  | .ok n => .ok n
  | .error fault => .error (.invalidValue "chainId" (some fault.message))

/-- A contract's address: forty digits, with or without a prefix. -/
def contractOf (s : String) : Except SetupFault Address :=
  match (Hex.decode? (Hex.bare (Text.trim s.toList))).bind Address.ofBytes? with
  | some a => .ok a
  | none => .error (.invalidValue "contractAddress" none)

/-- The settings that a file in the directory `base` gives. -/
def ofWritten (base : String) (w : Written) : Except SetupFault Settings := do
  let chain ← chainOf (← required "chainId" w.chain)
  let contract ← contractOf (← required "contractAddress" w.contract)
  let functionSignature := (w.functionSignature.map Text.trimmed).getD Selector.executeSignature
  if functionSignature.isEmpty then
    .error (.invalidValue "functionSignature" (some "must not be empty"))
  let threshold ← required "threshold" w.threshold
  if threshold = 0 then .error (.invalidValue "threshold" (some "must be at least 1"))
  let rosterPath ← required "registryPath" w.rosterPath
  let journalPath ← required "ledgerPath" w.journalPath
  let envelopeDirectory ← required "envelopeDir" w.envelopeDirectory
  return {
    chain, contract, functionSignature, threshold
    domainVersion := w.domainVersion.getD 1
    bindsSelector := w.bindsSelector.getD true
    rosterPath := Path.join base rosterPath
    journalPath := Path.join base journalPath
    envelopeDirectory := Path.join base envelopeDirectory
    trailPath := w.trailPath.map (Path.join base) }

def load (disk : Disk) (path : String) : Except SetupFault Settings :=
  match disk.readText? path with
  | none => .error (.unreadable path)
  | some text =>
    match Written.ofJson (Text.utf8 text) with
    | .error fault => .error (.unparsable path fault.message?)
    | .ok w => ofWritten ((Path.parent? path).getD "") w

end Settings
end Countersign
