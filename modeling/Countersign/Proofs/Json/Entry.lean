import Countersign.Proofs.Json.RoundTrip
import Mathlib.Data.List.Nodup

/-! Entries of objects under their names. A name stands for the last of its entries, and an object
without a name that occurs twice hides none of them. -/

namespace Countersign

theorem lookup_cons_ite {α : Type} (name other : String) (value : α) (rest : List (String × α)) :
    ((other, value) :: rest).lookup name = if name = other then some value else rest.lookup name := by
  by_cases h : name = other
  · simp [h]
  · have hne : (name == other) = false := beq_eq_false_iff_ne.mpr h
    simp only [List.lookup_cons, hne, if_neg h]

namespace Json

theorem entry?_append (name : String) (a b : List (Bytes × Json)) :
    entry? name (a ++ b) = ( entry? name b).or ( entry? name a) := by
  simp only [ entry?, List.reverse_append, List.find?_append]
  cases b.reverse.find? (·.1 == Text.utf8 name) <;> rfl

theorem entry?_cons (name other : String) (j : Json) (rest : List (Bytes × Json)) :
    entry? name ((Text.utf8 other, j) :: rest) =
      ( entry? name rest).or (if other = name then some j else none) := by
  rw [← List.singleton_append, entry?_append]
  by_cases h : other = name <;> simp [ entry?, h]

theorem entry?_nil (name : String) : entry? name [] = none := rfl

theorem entry?_map (fields : List (String × Json)) (name : String) :
    entry? name (fields.map fun e => (Text.utf8 e.1, e.2)) = fields.reverse.lookup name := by
  induction fields with
  | nil => rfl
  | cons e rest ih =>
    obtain ⟨other, j⟩ := e
    rw [List.map_cons, entry?_cons, ih, List.reverse_cons, List.lookup_append]
    congr 1
    rw [lookup_cons_ite, List.lookup_nil]
    simp only [eq_comm]

@[simp]
theorem strings?_array (ids : List String) : strings? (array (ids.map string)) = some ids := by
  show (ids.map string).mapM string? = some ids
  induction ids with
  | nil => rfl
  | cons s ids ih => simp [ih]

/-! ### Names that occur once -/

mutual

/-- Whether no object in the value has two entries of one name. -/
def isDistinct : Json → Bool
  | array items => isDistinctItems items
  | object entries => decide (entries.map Prod.fst).Nodup && isDistinctEntries entries
  | _ => true

def isDistinctItems : List Json → Bool
  | [] => true
  | j :: rest => isDistinct j && isDistinctItems rest

def isDistinctEntries : List (Bytes × Json) → Bool
  | [] => true
  | (_, j) :: rest => isDistinct j && isDistinctEntries rest

end

theorem isDistinctItems_map {α : Type} {write : α → Json} (h : ∀ a, (write a).isDistinct = true)
    (values : List α) : isDistinctItems (values.map write) = true := by
  induction values with
  | nil => rfl
  | cons a rest ih => simp [isDistinctItems, h a, ih]

theorem isDistinctEntries_iff {entries : List (Bytes × Json)} :
    isDistinctEntries entries = true ↔ ∀ e ∈ entries, e.2.isDistinct = true := by
  induction entries with
  | nil => simp [isDistinctEntries]
  | cons e rest ih => simp [isDistinctEntries, ih]

theorem isDistinct_object_iff {fields : List (String × Json)} :
    (object (fields.map fun e => (Text.utf8 e.1, e.2))).isDistinct = true ↔
      (fields.map Prod.fst).Nodup ∧ ∀ e ∈ fields, e.2.isDistinct = true := by
  have hnames : ((fields.map fun e => (Text.utf8 e.1, e.2)).map Prod.fst) =
      (fields.map Prod.fst).map Text.utf8 := by simp
  have hinj : Function.Injective Text.utf8 := fun _ _ => Text.utf8_injective
  rw [isDistinct, Bool.and_eq_true, decide_eq_true_eq, isDistinctEntries_iff, hnames,
    List.nodup_map_iff hinj, List.forall_mem_map]

end Json
end Countersign
