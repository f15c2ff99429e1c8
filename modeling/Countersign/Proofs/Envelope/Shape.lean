import Countersign.Proofs.Envelope.Textual

/-! What the textual form has to state. The fields go by their names, each of them given once at the
most, or by their order in an array, which stands for the object in which its items have names. -/

namespace Countersign

open Json.Form (valuesOf)

namespace Metadata

variable {items : List Json} {m : Metadata}

theorem ofJson?_array (h : items.length ≤ 3) :
    ofJson? (.array items) = ofJson? (.object (form.entries items)) := by
  obtain ⟨hwhole, hnamed, hfield⟩ := Json.Form.given_items (show form.closed = false from rfl)
    (show form.fields.Nodup by decide) (Nat.zero_le _) h
  simp only [ofJson?, Json.document, hwhole, hnamed, Json.optional?, hfield "guardianId" 0 rfl,
    hfield "issuedAt" 1 rfl, hfield "note" 2 rfl]

theorem whole_of_ofJson? {j : Json} (h : ofJson? j = some m) :
    (form.given j.document).whole = true := by
  obtain ⟨_, hguard, _⟩ := Option.bind_eq_some_iff.mp h
  simpa using hguard

theorem ofJson?_entries (h : ofJson? (.array items) = some m) :
    items.length ≤ 3 ∧ ofJson? (.object (form.entries items)) = some m := by
  obtain ⟨_, hmax⟩ := Json.Form.length_of_whole (whole_of_ofJson? h)
  exact ⟨hmax, ofJson?_array hmax ▸ h⟩

end Metadata

namespace Envelope

/-- The entries say of themselves what they are, and give no field twice. -/
structure States (entries : List (Bytes × Json)) (e : Envelope) : Prop where
  version : valuesOf "version" entries = [.natural 1]
  algorithm : valuesOf "algorithm" entries = [.string "dilithium"]
  parameterSet : ∃ n ≤ 255, valuesOf "parameterSet" entries = [.natural n] ∧
    e.parameterSet.toNat = n
  once : ∀ name ∈ form.fields, (valuesOf name entries).length ≤ 1

/-- Each field stands under its name, in metadata too. -/
def StatesByName (j : Json) (e : Envelope) : Prop :=
  ∃ entries, j = .object entries ∧ States entries e ∧
    ∀ m ∈ valuesOf "metadata" entries, m = .null ∨ ∃ fields, m = .object fields

/-- The fields are told by their places, or those of metadata are. -/
def GoesByPlace : Json → Prop
  | .array _ => True
  | .object entries => ∃ items, .array items ∈ valuesOf "metadata" entries
  | _ => False

variable {entries : List (Bytes × Json)} {items : List Json} {bytes : Bytes} {j : Json}
  {e : Envelope} {w : Written}

theorem ofJson?_items (hmin : 3 ≤ items.length) (hmax : items.length ≤ 7) :
    Written.ofJson? (.items items true) = Written.ofJson? (.fields (form.entries items) true) := by
  obtain ⟨hwhole, hnamed, hfield⟩ := Json.Form.given_items (show form.closed = false from rfl)
    (show form.fields.Nodup by decide) hmin hmax
  simp only [Written.ofJson?, hwhole, hnamed, Json.optional?, Json.textOr, Json.needed?,
    hfield "version" 0 rfl, hfield "algorithm" 1 rfl, hfield "parameterSet" 2 rfl,
    hfield "digest" 3 rfl, hfield "publicKey" 4 rfl, hfield "signature" 5 rfl,
    hfield "metadata" 6 rfl]

theorem eq_natural_of_below {bound n : Nat} (h : j.below? bound = some n) :
    j = .natural n ∧ n < bound := by
  cases j with
  | natural m =>
    obtain ⟨hlt, heq⟩ := Option.ite_none_right_eq_some.mp h
    cases heq
    exact ⟨rfl, hlt⟩
  | _ => cases h

theorem eq_string_of_string? {s : String} (h : j.string? = some s) : j = .string s := by
  cases j with
  | text bytes => rw [Json.string, Text.utf8_of_ofUtf8? h]
  | _ => cases h

theorem valuesOf_eq (h : Written.ofJson? (.fields entries true) = some w) {name : String}
    {place : Nat} (hplace : form.fields.idxOf? name = some place) :
    valuesOf name entries = ((form.given (.fields entries true)).field? place).toList := by
  have hall := Json.Form.valuesOf_of_named (whole_of_ofJson? h) hplace
  rwa [if_neg List.not_mem_nil] at hall

theorem states_of_ofJson? (h : Written.ofJson? (.fields entries true) = some w)
    (hversion : w.version = version) (halgorithm : w.algorithm = algorithm)
    (hset : w.parameterSet = e.parameterSet) : States entries e := by
  have hvalues : ∀ name place, form.fields.idxOf? name = some place →
      valuesOf name entries = ((form.given (.fields entries true)).field? place).toList :=
    fun _ _ => valuesOf_eq h
  simp only [Written.ofJson?, Json.needed?, Option.bind_eq_bind, Option.pure_def,
    Option.bind_eq_some_iff, Option.some.injEq] at h
  obtain ⟨_, _, v, hv, version, hbelow, algorithm, ⟨a, ha, hstring⟩, p, hp, n, hn, _, _, _, _,
    _, _, _, _, rfl⟩ := h
  -- what was read determines the value it was read from
  obtain ⟨rfl, _⟩ := eq_natural_of_below hbelow
  obtain ⟨rfl, hlt⟩ := eq_natural_of_below hn
  obtain rfl := eq_string_of_string? hstring
  refine ⟨?_, ?_, ⟨n, by omega, ?_, ?_⟩, ?_⟩
  · obtain rfl : version = 1 := hversion
    rw [hvalues "version" 0 rfl, hv]
    rfl
  · obtain rfl : algorithm = "dilithium" := halgorithm
    rw [hvalues "algorithm" 1 rfl, ha]
    rfl
  · rw [hvalues "parameterSet" 2 rfl, hp]
    rfl
  · rw [← hset, UInt8.toNat_ofNat', Nat.mod_eq_of_lt hlt]
  · intro name hname
    obtain ⟨place, hplace⟩ := Option.isSome_iff_exists.mp (List.isSome_idxOf?.mpr hname)
    rw [hvalues name place hplace]
    cases (form.given (.fields entries true)).field? place <;> simp

theorem metadata_of_ofJson? (h : Written.ofJson? (.fields entries true) = some w) :
    ∀ m ∈ valuesOf "metadata" entries, Json.nullable? Metadata.ofJson? m = some w.metadata := by
  intro m hm
  have hplace : form.fields.idxOf? "metadata" = some 6 := rfl
  rw [valuesOf_eq h hplace, Option.mem_toList] at hm
  simp only [Written.ofJson?, Option.bind_eq_bind, Option.pure_def, Option.bind_eq_some_iff,
    Option.some.injEq] at h
  obtain ⟨_, _, _, _, _, _, _, _, _, _, _, _, _, _, _, _, _, _, metadata, hmetadata, rfl⟩ := h
  rwa [Json.optional?, hm] at hmetadata

theorem shape_of_nullable? {metadata : Option Metadata}
    (h : Json.nullable? Metadata.ofJson? j = some metadata) :
    j = .null ∨ (∃ fields, j = .object fields) ∨ ∃ items, j = .array items := by
  cases j with
  | null => exact .inl rfl
  | object fields => exact .inr (.inl ⟨fields, rfl⟩)
  | array items => exact .inr (.inr ⟨items, rfl⟩)
  | _ => cases h

theorem statesByName_iff (hs : States entries e) {metadata : Option Metadata}
    (hm : ∀ m ∈ valuesOf "metadata" entries, Json.nullable? Metadata.ofJson? m = some metadata) :
    StatesByName (.object entries) e ↔ ¬ GoesByPlace (.object entries) := by
  constructor
  · rintro ⟨_, heq, _, hnamed⟩ ⟨items, hitems⟩
    cases heq
    rcases hnamed _ hitems with h | ⟨_, h⟩ <;> cases h
  · intro hplace
    refine ⟨entries, rfl, hs, fun m hmem => ?_⟩
    rcases shape_of_nullable? (hm m hmem) with h | h | ⟨items, rfl⟩
    · exact .inl h
    · exact .inr h
    · exact absurd ⟨items, hmem⟩ hplace

theorem decodeTextual_of_entries (hmin : 3 ≤ items.length) (hmax : items.length ≤ 7)
    (h : Json.read? bytes = some (.array items)) {other : Bytes}
    (ho : Json.read? other = some (.object (form.entries items))) :
    decodeTextual other = decodeTextual bytes := by
  simp only [decodeTextual, Json.readDocument_eq_document rfl h,
    Json.readDocument_eq_document rfl ho, Json.document, ofJson?_items hmin hmax]

/-- What is accepted states its fields by name, unless it or metadata in it is an array. An array
stands for the object in which its items have the names of the fields, in their order. -/
theorem fields_are_stated_by_name_or_in_order (h : decodeTextual bytes = .ok e) :
    ∃ j, Json.read? bytes = some j ∧ (StatesByName j e ↔ ¬ GoesByPlace j) ∧
      (∀ items, j = .array items → 3 ≤ items.length ∧ items.length ≤ 7 ∧
        States (form.entries items) e ∧ ∀ other,
          Json.read? other = some (.object (form.entries items)) → decodeTextual other = .ok e) ∧
      ∀ entries, j = .object entries → States entries e ∧
        ∀ items, .array items ∈ valuesOf "metadata" entries → items.length ≤ 3 ∧
          ∃ m, Metadata.ofJson? (.object (Metadata.form.entries items)) = some m ∧
            e.metadata = some m := by
  obtain ⟨j, hj, hread⟩ := exists_read?_of_decodeTextual h
  obtain ⟨w, hw, hversion, halgorithm, _, _, hset, _, hmetadata⟩ := decodeTextual_eq_ok_iff.mp h
  rw [Json.readDocument_eq_document hj hread] at hw
  refine ⟨j, hread, ?_⟩
  cases j with
  | object entries =>
    have hs := states_of_ofJson? hw hversion halgorithm hset
    have hm := metadata_of_ofJson? hw
    refine ⟨statesByName_iff hs hm, fun _ => Json.noConfusion, ?_⟩
    rintro _ ⟨⟩
    refine ⟨hs, fun items hitems => ?_⟩
    obtain ⟨m, ho, hsome⟩ := Option.map_eq_some_iff.mp (hm _ hitems)
    obtain ⟨hmax, hentries⟩ := Metadata.ofJson?_entries ho
    exact ⟨hmax, m, hentries, by rw [← hmetadata, ← hsome]⟩
  | array items =>
    obtain ⟨hmin, hmax⟩ := Json.Form.length_of_whole (whole_of_ofJson? hw)
    have hnot : ¬ StatesByName (.array items) e := by
      rintro ⟨_, heq, _⟩
      cases heq
    have hplace : GoesByPlace (.array items) := trivial
    refine ⟨iff_of_false hnot (not_not_intro hplace), ?_, fun _ => Json.noConfusion⟩
    rintro _ ⟨⟩
    rw [Json.document, ofJson?_items hmin hmax] at hw
    refine ⟨hmin, hmax, states_of_ofJson? hw hversion halgorithm hset, fun other ho => ?_⟩
    rw [decodeTextual_of_entries hmin hmax hread ho, h]
  | _ => cases hj

theorem bare_values_stand_for_named_ones :
    let items : List Json := [.natural 1, .string "dilithium", .natural 2]
    let bare := Json.ascii "[1,\"dilithium\",2]"
    let named :=
      Json.ascii "\x7b\"version\":1,\"algorithm\":\"dilithium\",\"parameterSet\":2\x7d"
    let e : Envelope := ⟨2, "", [], [], none⟩
    decodeTextual bare = .ok e ∧ Json.read? bare = some (.array items) ∧
    Json.read? named = some (.object (form.entries items)) ∧
    States (form.entries items) e ∧ decodeTextual named = .ok e := by
  intro items bare named e
  have hdecode : decodeTextual bare = .ok e := by decide +kernel
  have hbare : Json.read? bare = some (.array items) := rfl
  have hnamed : Json.read? named = some (.object (form.entries items)) := rfl
  obtain ⟨j, hj, _, harray, _⟩ := fields_are_stated_by_name_or_in_order hdecode
  obtain ⟨_, _, hstates, hsame⟩ := harray items (Option.some.inj (hj.symm.trans hbare))
  exact ⟨hdecode, hbare, hnamed, hstates, hsame named hnamed⟩

/-- Three bare values, none of which says what it is. -/
theorem bare_values_are_an_envelope :
    decodeTextual (Json.ascii "[1,\"dilithium\",2]") = .ok ⟨2, "", [], [], none⟩ ∧
    ∀ entries, Json.read? (Json.ascii "[1,\"dilithium\",2]") ≠ some (.object entries) := by
  refine ⟨by decide +kernel, fun entries => ?_⟩
  have hread : Json.read? (Json.ascii "[1,\"dilithium\",2]") =
      some (.array [.natural 1, .string "dilithium", .natural 2]) := by rfl
  rw [hread]
  exact nofun

end Envelope
end Countersign
