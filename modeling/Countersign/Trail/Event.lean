import Countersign.Json.Writer
import Countersign.Moment

/-! What happens to an intent on its way to execution, and the texts that tell it. Every entry of a
trail carries the context of its round. -/

namespace Countersign

inductive Event where
  | intentReceived
  | signaturesLoaded (count : Nat)
  | thresholdSatisfied (threshold : Nat) (guardianIds : List String)
  | thresholdShortfall (threshold approvals : Nat) (pendingIds : List String)
  | broadcast (txHash : String)
  | executed (txHash : String)
  | failure (reason : String)
  deriving DecidableEq, Repr

/-- What the entries of a round have in common. -/
structure Context where
  digest : String
  /-- Further fields, one of each name, in the order of their names. -/
  fields : List (String × String) := []
  deriving DecidableEq, Repr

structure TrailEntry where
  time : Moment
  context : Context
  event : Event
  deriving DecidableEq, Repr

namespace Event

def name : Event → String
  | intentReceived => "intentReceived"
  | signaturesLoaded _ => "signaturesLoaded"
  | thresholdSatisfied .. => "thresholdSatisfied"
  | thresholdShortfall .. => "thresholdShortfall"
  | broadcast _ => "broadcast"
  | executed _ => "executed"
  | failure _ => "failure"

/-- What the event says beyond its name. -/
def payload : Event → List (String × Json)
  | intentReceived => []
  | signaturesLoaded count => [("count", .natural count)]
  | thresholdSatisfied threshold guardianIds =>
    [("threshold", .natural threshold), ("guardianIds", .array (guardianIds.map .string))]
  | thresholdShortfall threshold approvals pendingIds =>
    [("threshold", .natural threshold), ("approvals", .natural approvals),
      ("pendingIds", .array (pendingIds.map .string))]
  | broadcast txHash => [("txHash", .string txHash)]
  | executed txHash => [("txHash", .string txHash)]
  | failure reason => [("reason", .string reason)]

def summary : Event → String
  | intentReceived => "intent received"
  | signaturesLoaded count => s!"{count} guardian envelopes loaded"
  | thresholdSatisfied threshold guardianIds =>
    s!"threshold {threshold} satisfied by " ++ ",".intercalate guardianIds
  | thresholdShortfall threshold approvals pendingIds =>
    let pending := if pendingIds.isEmpty then "-" else ",".intercalate pendingIds
    s!"threshold shortfall {approvals}/{threshold} (pending: {pending})"
  | broadcast txHash => s!"broadcast tx={txHash}"
  | executed txHash => s!"executed tx={txHash}"
  | failure reason => s!"failure: {reason}"

/-- Whether somebody has to look at it. -/
def isWarning : Event → Bool
  | failure _ => true
  | thresholdShortfall .. => true
  | _ => false

end Event

namespace Context

/-- Puts a field where its name belongs, in place of one of that name. -/
def insertField (name value : String) : List (String × String) → List (String × String)
  | [] => [(name, value)]
  | (other, kept) :: rest =>
    if name < other then (name, value) :: (other, kept) :: rest
    else if name = other then (name, value) :: rest
    else (other, kept) :: insertField name value rest

def withField (c : Context) (name value : String) : Context :=
  { c with fields := insertField name value c.fields }

def jsonFields (c : Context) : List (Bytes × Json) :=
  c.fields.map fun (name, value) => (Text.utf8 name, .string value)

def toJson (c : Context) : Json :=
  .object ((Text.utf8 "digest", .string c.digest) :: c.jsonFields)

end Context

namespace TrailEntry

def toJson (entry : TrailEntry) : Json :=
  .object ([(Text.utf8 "timestamp", .string entry.time.text),
    (Text.utf8 "context", entry.context.toJson),
    (Text.utf8 "event", .string entry.event.name)] ++
    entry.event.payload.map fun (name, j) => (Text.utf8 name, j))

def line (entry : TrailEntry) : Bytes := entry.toJson.compact ++ [0x0a]

end TrailEntry

/-- An entry as it is told to whoever watches the process. -/
structure Notice where
  isWarning : Bool
  target : String
  event : String
  digest : String
  /-- The fields of the context, as JSON. -/
  context : String
  message : String
  deriving DecidableEq, Repr

/-- Where notices on entries are sent. -/
def Notice.executionTarget : String := "guardian_quorum::execution"

def TrailEntry.notice (entry : TrailEntry) : Notice where
  isWarning := entry.event.isWarning
  target := Notice.executionTarget
  event := entry.event.name
  digest := entry.context.digest
  context :=
    if entry.context.fields.isEmpty then ""
    else Json.shown (Json.object entry.context.jsonFields).compact
  message := entry.event.summary

end Countersign
