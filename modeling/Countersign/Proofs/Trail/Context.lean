import Countersign.Proofs.Envelope.Fields
import Countersign.Proofs.Json.Entry
import Countersign.Trail.Event
import Mathlib.Data.String.Basic

/-! Contexts that are put together from a digest and further fields. Under a name stands what was put
there last; only the name of the digest itself can stand twice in the object that tells a context. -/

namespace Countersign.Context

/-- The context with further fields, put in one after the other. -/
def withFields (c : Context) (given : List (String × String)) : Context :=
  given.foldl (fun c field => c.withField field.1 field.2) c

variable {name value : String} {fields given : List (String × String)}

theorem lookup_insertField (name value : String) (fields : List (String × String))
    (other : String) : (insertField name value fields).lookup other =
      if other = name then some value else fields.lookup other := by
  induction fields with
  | nil => rw [insertField, lookup_cons_ite]
  | cons field rest ih =>
    obtain ⟨first, kept⟩ := field
    rw [insertField, lookup_cons_ite]
    split
    · rw [lookup_cons_ite, lookup_cons_ite]
    · split
      · rename_i hsame
        subst hsame
        rw [lookup_cons_ite]
        split <;> rfl
      · rename_i hdiff
        rw [lookup_cons_ite, ih]
        by_cases h : other = first
        · rw [if_pos h, if_neg (h ▸ Ne.symm hdiff), if_pos h]
        · rw [if_neg h, if_neg h]

theorem mem_insertField {field : String × String} (h : field ∈ insertField name value fields) :
    field = (name, value) ∨ field ∈ fields := by
  induction fields with
  | nil => exact .inl (List.mem_singleton.mp h)
  | cons first rest ih =>
    rw [insertField] at h
    split at h
    · exact List.mem_cons.mp h
    · split at h
      · exact (List.mem_cons.mp h).imp_right (List.mem_cons_of_mem first)
      · rcases List.mem_cons.mp h with rfl | h
        · exact .inr List.mem_cons_self
        · exact (ih h).imp_right (List.mem_cons_of_mem first)

/-- Fields in the order of their names, no name twice. -/
def AreOrdered (fields : List (String × String)) : Prop := fields.Pairwise fun e f => e.1 < f.1

theorem AreOrdered.insertField (h : AreOrdered fields) (name value : String) :
    AreOrdered (insertField name value fields) := by
  induction fields with
  | nil => exact List.pairwise_singleton _ _
  | cons first rest ih =>
    obtain ⟨hfirst, hrest⟩ := List.pairwise_cons.mp h
    rw [Context.insertField]
    split
    · rename_i hlt
      refine List.pairwise_cons.mpr ⟨fun field hf => ?_, h⟩
      rcases List.mem_cons.mp hf with rfl | hf
      · exact hlt
      · exact lt_trans hlt (hfirst field hf)
    · rename_i hnot
      split
      · rename_i hsame
        subst hsame
        exact List.pairwise_cons.mpr ⟨hfirst, hrest⟩
      · rename_i hdiff
        refine List.pairwise_cons.mpr ⟨fun field hf => ?_, ih hrest⟩
        rcases mem_insertField hf with rfl | hf
        · exact lt_of_le_of_ne (not_lt.mp hnot) (Ne.symm hdiff)
        · exact hfirst field hf

theorem AreOrdered.nodup (h : AreOrdered fields) : (fields.map Prod.fst).Nodup :=
  List.pairwise_map.mpr (h.imp fun hlt => ne_of_lt hlt)

/-! ### Fields put in one after the other -/

theorem digest_withFields (c : Context) (given : List (String × String)) :
    (c.withFields given).digest = c.digest := by
  induction given generalizing c with
  | nil => rfl
  | cons field rest ih => exact ih (c.withField field.1 field.2)

theorem areOrdered_withFields {c : Context} (h : AreOrdered c.fields)
    (given : List (String × String)) : AreOrdered (c.withFields given).fields := by
  induction given generalizing c with
  | nil => exact h
  | cons field rest ih => exact ih (h.insertField field.1 field.2)

theorem lookup_withFields (c : Context) (given : List (String × String)) (name : String) :
    (c.withFields given).fields.lookup name =
      (given.reverse.lookup name).or (c.fields.lookup name) := by
  induction given generalizing c with
  | nil => rfl
  | cons field rest ih =>
    obtain ⟨other, value⟩ := field
    have hcons : c.withFields ((other, value) :: rest) =
        (c.withField other value).withFields rest := rfl
    rw [hcons, ih, List.reverse_cons, List.lookup_append, Option.or_assoc]
    congr 1
    have hone : (c.withField other value).fields = insertField other value c.fields := rfl
    rw [hone, lookup_insertField, lookup_cons_ite, List.lookup_nil]
    split <;> rfl

theorem mem_names_iff_lookup_isSome {α : Type} {fields : List (String × α)} :
    name ∈ fields.map Prod.fst ↔ (fields.lookup name).isSome = true := by
  rw [List.mem_map, List.lookup_isSome_iff]
  exact exists_congr fun field => and_congr_right' (by rw [beq_iff_eq, eq_comm])

theorem mem_names_withFields_iff {digest : String} :
    name ∈ (({ digest } : Context).withFields given).fields.map Prod.fst ↔
      name ∈ given.map Prod.fst := by
  rw [mem_names_iff_lookup_isSome, lookup_withFields, List.lookup_nil, Option.or_none,
    ← mem_names_iff_lookup_isSome, List.map_reverse, List.mem_reverse]

/-! ### The object that tells a context -/

/-- What the object holds under which name. -/
def entries (c : Context) : List (String × Json) :=
  ("digest", .string c.digest) :: c.fields.map fun field => (field.1, .string field.2)

theorem toJson_eq (c : Context) :
    c.toJson = .object (c.entries.map fun e => (Text.utf8 e.1, e.2)) := by
  simp [toJson, jsonFields, entries, Function.comp_def]

theorem names_entries (c : Context) :
    c.entries.map Prod.fst = "digest" :: c.fields.map Prod.fst := by
  simp [entries, Function.comp_def]

theorem eq_string_of_mem_entries {c : Context} {e : String × Json} (h : e ∈ c.entries) :
    ∃ s, e.2 = .string s := by
  rcases List.mem_cons.mp h with rfl | h
  · exact ⟨c.digest, rfl⟩
  · obtain ⟨field, _, rfl⟩ := List.mem_map.mp h
    exact ⟨field.2, rfl⟩

theorem isDistinct_toJson_iff {c : Context} (h : AreOrdered c.fields) :
    c.toJson.isDistinct = true ↔ "digest" ∉ c.fields.map Prod.fst := by
  rw [toJson_eq, Json.isDistinct_object_iff, names_entries, List.nodup_cons]
  constructor
  · exact fun hall => hall.1.1
  · refine fun hnot => ⟨⟨hnot, h.nodup⟩, fun e he => ?_⟩
    obtain ⟨s, hs⟩ := eq_string_of_mem_entries he
    rw [hs]
    rfl

theorem isPlain_toJson (c : Context) : c.toJson.isPlain = true := by
  rw [toJson_eq]
  refine Json.isPlain_object fun e he => ?_
  obtain ⟨s, hs⟩ := eq_string_of_mem_entries he
  rw [hs]
  rfl

theorem legible_toJson (c : Context) : c.toJson.legible = true := by
  rw [toJson_eq]
  refine Json.legible_object fun e he => ?_
  obtain ⟨s, hs⟩ := eq_string_of_mem_entries he
  rw [hs]
  exact Json.legible_string s

/-- A field of the digest's name stands in front of the digest. -/
theorem get?_toJson {c : Context} (h : AreOrdered c.fields) (name : String) :
    c.toJson.get? name = ((c.fields.lookup name).map Json.string).or
      (if name = "digest" then some (.string c.digest) else none) := by
  have hsame : c.fields.reverse.lookup name = c.fields.lookup name :=
    (lookup_perm (List.reverse_perm c.fields).symm h.nodup name).symm
  rw [toJson_eq]
  show Json.entry? name _ = _
  rw [ Json.entry?_map, entries, List.reverse_cons, ← List.map_reverse, List.lookup_append,
    lookup_map, hsame]
  rw [lookup_cons_ite, List.lookup_nil]

end Countersign.Context
