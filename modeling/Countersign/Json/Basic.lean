import Countersign.Text.Utf8

/-! JSON values. Texts are held as bytes: a value may be passed over without its texts being
well-formed, and is asked for that only where it is used. -/

namespace Countersign

inductive Json where
  | null
  | bool (b : Bool)
  /-- A number written as digits alone. -/
  | natural (n : Nat)
  /-- A number with a sign, a fraction or an exponent, as it is written out again. -/
  | number (literal : Bytes)
  | text (bytes : Bytes)
  | array (items : List Json)
  | object (entries : List (Bytes × Json))
  deriving Inhabited

namespace Json

def string (s : String) : Json := text (Text.utf8 s)

/-- The text of a value that is one, if its bytes are well-formed. -/
def string? : Json → Option String
  | text bytes => Text.ofUtf8? bytes
  | _ => none

mutual

/-- How deep arrays and objects stand inside one another. -/
def depth : Json → Nat
  | array items => 1 + depthItems items
  | object entries => 1 + depthEntries entries
  | _ => 0

def depthItems : List Json → Nat
  | [] => 0
  | j :: rest => max (depth j) (depthItems rest)

def depthEntries : List (Bytes × Json) → Nat
  | [] => 0
  | (_, j) :: rest => max (depth j) (depthEntries rest)

end

mutual

/-- Whether every text in the value, names included, is well-formed. -/
def legible : Json → Bool
  | text bytes => (Text.ofUtf8? bytes).isSome
  | array items => legibleItems items
  | object entries => legibleEntries entries
  | _ => true

def legibleItems : List Json → Bool
  | [] => true
  | j :: rest => legible j && legibleItems rest

def legibleEntries : List (Bytes × Json) → Bool
  | [] => true
  | (name, j) :: rest => (Text.ofUtf8? name).isSome && legible j && legibleEntries rest

end

/-- Whether a value at nesting level `level` can be taken in as a whole. -/
def Sound (level : Nat) (j : Json) : Prop := j.legible = true ∧ level + j.depth ≤ 127

instance (level : Nat) (j : Json) : Decidable (Sound level j) :=
  inferInstanceAs (Decidable (_ ∧ _))

/-- What the last entry of that name holds. -/
def entry? (name : String) (entries : List (Bytes × Json)) : Option Json :=
  (entries.reverse.find? (·.1 == Text.utf8 name)).map (·.2)

/-- The entry of an object; other values have none. -/
def get? (name : String) : Json → Option Json
  | object entries => entry? name entries
  | _ => none

/-- Puts an entry where its name belongs in the order of names, in place of one of that name. -/
def insertEntry (name : Bytes) (j : Json) : List (Bytes × Json) → List (Bytes × Json)
  | [] => [(name, j)]
  | (other, k) :: rest =>
    if name < other then (name, j) :: (other, k) :: rest
    else if name = other then (name, j) :: rest
    else (other, k) :: insertEntry name j rest

mutual

/-- The value with the names of each object in order, the last entry of each name alone. -/
def sorted : Json → Json
  | array items => array (sortedItems items)
  | object entries => object (sortedEntries [] entries)
  | j => j

def sortedItems : List Json → List Json
  | [] => []
  | j :: rest => sorted j :: sortedItems rest

def sortedEntries (done : List (Bytes × Json)) : List (Bytes × Json) → List (Bytes × Json)
  | [] => done
  | (name, j) :: rest => sortedEntries (insertEntry name (sorted j) done) rest

end

end Json
end Countersign
