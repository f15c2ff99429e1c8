import Countersign.Intent.Basic
import Countersign.Intent.HexText
import Countersign.Json.Record
import Countersign.Json.Tagged
import Countersign.Text.Blank

/-! Requests for an intent, whose fields are texts or numbers still to be checked. -/

namespace Countersign

/-- An amount as it is asked for: a number, or the text of one. -/
inductive Quantity where
  | number (n : Amount)
  | text (s : String)
  deriving DecidableEq, Repr

structure Request where
  target : Option String := none
  value : Option Quantity := none
  data : Option String := none

namespace Quantity

/-- The value of hexadecimal digits; underscores between them do not count. -/
def hexValue? (s : List Char) : Option Nat :=
  ((s.filter (· ≠ '_')).mapM Hex.digit?).map fun digits =>
    digits.foldl (fun n d => 16 * n + d) 0

/-- The number that a text denotes: decimal digits, or hexadecimal ones after `0x` or `0X`. -/
def numberOf? (s : List Char) : Option Nat :=
  match Hex.unprefixed? s with
  | some [] => none
  | some digits => hexValue? digits
  | none => Text.decimal? s

def ofText (s : String) : Except IntentFault Amount :=
  match (numberOf? (Text.trim s.toList)).bind Amount.ofNat? with
  | some n => .ok n
  | none => .error (.notAmount s)

def amount : Quantity → Except IntentFault Amount
  | number n => .ok n
  | text s => ofText s

inductive Fault where
  | illegible
  | notNatural (literal : String)
  | tooLarge (digits : String)
  | otherKind (shown : String)
  deriving DecidableEq, Repr

/-- The text that explains the fault, where there is one. -/
def Fault.message? : Fault → Option String
  | illegible => none
  | notNatural literal => some s!"value {literal} is not a non-negative integer"
  | tooLarge digits => some s!"value {digits} exceeds 256 bits"
  | otherKind shown => some s!"value must be an integer or a string, got {shown}"

/-- The quantity in a JSON value that stands `level` levels deep. -/
def ofJson (level : Nat) (j : Json) : Except Fault Quantity :=
  match j.takenIn? level with
  | none => .error .illegible
  | some (.natural n) =>
    match Amount.ofNat? n with
    | some a => .ok (number a)
    | none => .error (.tooLarge (String.ofList (Text.decimal n)))
  | some (.number literal) => .error (.notNatural (Json.shown literal))
  | some (.text bytes) =>
    match Text.ofUtf8? bytes with
    | some s => .ok (text s)
    | none => .error .illegible
  | some j => .error (.otherKind (Json.shown j.sorted.compact))

end Quantity

namespace Request

def form : Json.Form := ⟨["to", "value", "data"], 3, false⟩

def setField (r : Request) : Nat × Json → Except Quantity.Fault Request
  | (0, j) => field j fun s => { r with target := s }
  | (1, .null) => .ok { r with value := none }
  | (1, j) => (Quantity.ofJson 1 j).map fun q => { r with value := some q }
  | (_, j) => field j fun s => { r with data := s }
where
  field (j : Json) (set : Option String → Request) : Except Quantity.Fault Request :=
    match Json.nullable? Json.string? j with
    | some s => .ok (set s)
    | none => .error .illegible

def ofJson (bytes : Bytes) : Except Quantity.Fault Request := do
  let given := form.given (Json.readDocument bytes)
  let r ← given.values.foldlM setField {}
  if given.whole then return r else .error .illegible

end Request

namespace Intent

/-- The intent that a request asks for: the target first, then the value, then the data. -/
def ofRequest (r : Request) : Except IntentFault Intent := do
  let some target := r.target | .error (.missing "to")
  let address ← (← HexText.read "to" (Text.trimmed target)).bytes "to"
  let some target := Address.ofBytes? address | .error (.addressLength address.length)
  let some value := r.value | .error (.missing "value")
  let value ← value.amount
  match r.data with
  | none => return ⟨target, value, []⟩
  | some data => return ⟨target, value, ← (← HexText.read "data" (Text.trimmed data)).bytes "data"⟩

end Intent
end Countersign
