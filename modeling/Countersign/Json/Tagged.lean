import Countersign.Json.Reader

/-! Numbers in objects, and the values that are taken in as a whole. An object whose first entry has
one certain name stands for the number whose text the entry holds, and has no other entry. -/

namespace Countersign.Json

/-- The name that makes an object a number. -/
def numberTag : Bytes := ascii "$serde_json::private::Number"

/-- The number that a text is from its first byte to its last. -/
def numberOf? (bytes : Bytes) : Option Json :=
  let read := match bytes with
    | 0x2d :: rest => readUnsigned true rest
    | _ => readUnsigned false bytes
  match read with
  | some (j, []) => some j
  | _ => none

def isTagged : List (Bytes × Json) → Bool
  | (name, _) :: _ => name == numberTag
  | [] => false

/-- The number that a tagged object stands for. -/
def taggedNumber? : List (Bytes × Json) → Option Json
  | [(_, text bytes)] => numberOf? bytes
  | _ => none

mutual

/-- The value with the numbers that its objects stand for, unless a tag marks something else. -/
def untagged? : Json → Option Json
  | array items => (untaggedItems? items).map array
  | object entries =>
    if isTagged entries then taggedNumber? entries else (untaggedEntries? entries).map object
  | j => some j

def untaggedItems? : List Json → Option (List Json)
  | [] => some []
  | j :: rest => do return (← untagged? j) :: (← untaggedItems? rest)

def untaggedEntries? : List (Bytes × Json) → Option (List (Bytes × Json))
  | [] => some []
  | (name, j) :: rest => do return (name, ← untagged? j) :: (← untaggedEntries? rest)

end

/-- What a value at nesting level `level` is taken in as, if it can be. -/
def takenIn? (level : Nat) (j : Json) : Option Json :=
  if Sound level j then j.untagged? else none

end Countersign.Json
