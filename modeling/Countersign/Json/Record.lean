import Countersign.Json.Reader

/-! Records in JSON: an object with named fields, or an array of the fields in their order. A
field occurs at most once, and an object may hold other names unless the record is closed. -/

namespace Countersign.Json

structure Form where
  fields : List String
  /-- How many fields an array has to give at least. -/
  needed : Nat
  /-- Whether names that are not declared are refused. -/
  closed : Bool

/-- The fields that a text gives, by their place in the form, in the order of the text and up to
its first fault. -/
structure Given where
  values : List (Nat × Json)
  whole : Bool

namespace Form

/-- The given fields among `entries`, where the fields in `seen` have been given before. -/
def named (form : Form) (whole : Bool) (seen : List Nat) : List (Bytes × Json) → Given
  | [] => ⟨[], whole⟩
  | (name, j) :: rest =>
    match Text.ofUtf8? name with
    | none => ⟨[], false⟩
    | some name =>
      match form.fields.idxOf? name with
      | none => if form.closed then ⟨[], false⟩ else form.named whole seen rest
      | some place =>
        if place ∈ seen then ⟨[], false⟩
        else
          let given := form.named whole (place :: seen) rest
          { given with values := (place, j) :: given.values }

def given (form : Form) : Document → Given
  | .fields entries whole => form.named whole [] entries
  | .items items whole =>
    { values := items.take form.fields.length |>.zipIdx |>.map fun (j, place) => (place, j)
      whole := whole && form.needed ≤ items.length && items.length ≤ form.fields.length }
  | _ => ⟨[], false⟩

end Form

namespace Given

def field? (given : Given) (place : Nat) : Option Json := given.values.lookup place

end Given

/-! ### Single fields -/

/-- A text that has to be given. -/
def needed? (given : Given) (place : Nat) : Option String := do (← given.field? place).string?

/-- A text that is empty if it is not given. -/
def textOr (given : Given) (place : Nat) : Option String :=
  match given.field? place with
  | none => some ""
  | some j => j.string?

/-- What `read` makes of a value that may be `null`. -/
def nullable? {α : Type} (read : Json → Option α) : Json → Option (Option α)
  | .null => some none
  | j => (read j).map some

/-- A field that may be `null` or not be given at all. -/
def optional? {α : Type} (read : Json → Option α) (given : Given) (place : Nat) :
    Option (Option α) :=
  match given.field? place with
  | none => some none
  | some j => nullable? read j

/-- A natural number below a bound, written as digits alone. -/
def below? (bound : Nat) : Json → Option Nat
  | .natural n => if n < bound then some n else none
  | _ => none

def bool? : Json → Option Bool
  | .bool b => some b
  | _ => none

def strings? : Json → Option (List String)
  | .array items => items.mapM string?
  | _ => none

end Countersign.Json
