import Countersign.Proofs.Cbor.Rearrangement
import Countersign.Proofs.Envelope.Binary

/-! A map of CBOR in any order. Neither the order of the entries nor that of the metadata matters,
no text key may occur twice, and what is accepted states version, algorithm and parameter set. -/

namespace Countersign

namespace Cbor

variable {entries other : List (Cbor × Cbor)}

def named? : Cbor × Cbor → Option (String × Cbor)
  | (text key, item) => some (key, item)
  | _ => none

theorem named_eq_filterMap (entries : List (Cbor × Cbor)) :
    named entries = entries.filterMap named? := by
  induction entries with
  | nil => rfl
  | cons e rest ih =>
    obtain ⟨key, item⟩ := e
    rw [List.filterMap_cons, ← ih]
    cases key <;> rfl

theorem named_perm (h : entries.Perm other) :
    (named entries).Perm (named other) := by
  rw [named_eq_filterMap, named_eq_filterMap]
  exact h.filterMap _

theorem named_sameEntries
    (h : List.Forall₂ (fun e f => e.1 = f.1 ∧ SameEntries e.2 f.2) entries other) :
    List.Forall₂ (fun e f => e.1 = f.1 ∧ SameEntries e.2 f.2) (named entries) (named other) := by
  induction h with
  | nil => exact .nil
  | @cons e f rest more hef _ ih =>
    obtain ⟨key, item⟩ := e
    obtain ⟨_, moved⟩ := f
    obtain ⟨rfl, hsame⟩ := hef
    cases key with
    | text key => exact .cons ⟨rfl, hsame⟩ ih
    | _ => exact ih

theorem named_rearranged (h : Rearranged entries other) :
    ∃ moved, (named entries).Perm moved ∧
      List.Forall₂ (fun e f => e.1 = f.1 ∧ SameEntries e.2 f.2) moved (named other) := by
  obtain ⟨moved, hperm, hsame⟩ := h
  exact ⟨named moved, named_perm hperm, named_sameEntries hsame⟩

theorem mem_named_iff {key : String} {item : Cbor} :
    (key, item) ∈ named entries ↔ (text key, item) ∈ entries := by
  rw [named_eq_filterMap, List.mem_filterMap]
  constructor
  · rintro ⟨⟨k, v⟩, hm, h⟩
    cases k with
    | text k =>
      cases h
      exact hm
    | _ => exact nomatch h
  · exact fun h => ⟨_, h, rfl⟩

theorem Repeats.not_nodup (h : Repeats entries) : ¬ ((named entries).map Prod.fst).Nodup := by
  obtain ⟨key, first, second, hs⟩ := h
  have hnamed : [(key, first), (key, second)].Sublist (named entries) := by
    rw [named_eq_filterMap]
    exact hs.filterMap named?
  intro hd
  have hpair : [key, key].Nodup := hd.sublist (hnamed.map Prod.fst)
  exact (List.nodup_cons.mp hpair).1 List.mem_cons_self

end Cbor

namespace Envelope

variable {entries other : List (Cbor × Cbor)} {bytes moved : Bytes} {e : Envelope}

theorem metadata_perm (h : entries.Perm other) :
    (Metadata.ofCbor (.map entries)).toOption = (Metadata.ofCbor (.map other)).toOption := by
  have hfields : (Metadata.setFields [] {} entries).toOption =
      (Metadata.setFields [] {} other).toOption := by
    ext m
    have hnamed := Cbor.named_perm h
    rw [toOption_eq_some_iff, toOption_eq_some_iff, Metadata.setFields_eq_ok_iff,
      Metadata.setFields_eq_ok_iff, ← (hnamed.map Prod.fst).nodup_iff]
    exact and_congr_right fun hd => Metadata.isReadFrom_perm hnamed hd
  have hmap : ∀ x : Except Fault Metadata, (x.map some).toOption = x.toOption.map some := by
    intro x
    cases x <;> rfl
  rw [Metadata.ofCbor, Metadata.ofCbor, hmap, hmap, hfields]

theorem alike_of_sameEntries {item other : Cbor} (h : Cbor.SameEntries item other) :
    binary.Alike item other := by
  rcases h with rfl | ⟨entries, moved, rfl, rfl, h⟩
  · exact ⟨rfl, rfl, rfl, rfl, rfl, rfl, rfl⟩
  · exact ⟨rfl, rfl, rfl, rfl, rfl, rfl, metadata_perm h⟩

theorem ofCbor_rearranged (h : Cbor.Rearranged entries other)
    (he : ofCbor (.map entries) = .ok e) :
    ofCbor (.map other) = .ok e := by
  obtain ⟨moved, hperm, hsame⟩ := Cbor.named_rearranged h
  rw [ofCbor_eq_ok_iff] at he ⊢
  obtain ⟨hd, hread⟩ := he
  -- with distinct keys the order does not matter, and behind equal keys stand values read alike
  refine ⟨keys_eq hsame ▸ (hperm.map Prod.fst).nodup_iff.mp hd, ?_⟩
  have hmoved := (isReadFrom_perm hperm hd).mp hread
  exact hmoved.of_alike (hsame.imp fun _ _ hef => ⟨hef.1, alike_of_sameEntries hef.2⟩)

/-- How bytes come to hold the map of some entries. -/
inductive Origin where
  /-- The map is what is read from them, in whatever way it is spelled. -/
  | found
  /-- The map is written in front of them, whether or not it can be read. -/
  | written

def Origin.Gives : Origin → List (Cbor × Cbor) → Bytes → Prop
  | found, entries, bytes => Cbor.read? bytes = some (.map entries)
  | written, entries, bytes =>
    (Cbor.map entries).Writable ∧ ∃ more, bytes = (Cbor.map entries).encode ++ more

/-- The entries as they are read. -/
def Origin.read? : Origin → List (Cbor × Cbor) → Option (List (Cbor × Cbor))
  | found, entries => some entries
  | written, entries => Cbor.asReadEntries? 255 entries

variable {origin : Origin}

theorem Origin.Gives.decode_eq_ok_iff (h : origin.Gives entries bytes) :
    decodeBinary bytes = .ok e ↔
      ∃ found, origin.read? entries = some found ∧ ofCbor (.map found) = .ok e := by
  cases origin with
  | found =>
    have hread : Cbor.read? bytes = some (.map entries) := h
    simp [decodeBinary, hread, Origin.read?]
  | written =>
    obtain ⟨hw, more, rfl⟩ := h
    have hmap : Cbor.asRead? 256 (.map entries) = (Cbor.asReadEntries? 255 entries).map .map := by
      rw [Cbor.asRead?]
    rw [decodeBinary, Cbor.read?_encode_append hw, hmap, Origin.read?]
    cases Cbor.asReadEntries? 255 entries with
    | none => simp
    | some found => simp

theorem Origin.exists_read? (h : Cbor.Rearranged entries other)
    {found : List (Cbor × Cbor)} (hf : origin.read? entries = some found) :
    ∃ moved, origin.read? other = some moved ∧ Cbor.Rearranged found moved := by
  cases origin with
  | found =>
    cases hf
    exact ⟨other, rfl, h⟩
  | written => exact Cbor.asReadEntries?_rearranged h hf

theorem decodeBinary_rearranged (h : origin.Gives entries bytes) (ho : origin.Gives other moved)
    (hr : Cbor.Rearranged entries other) (he : decodeBinary bytes = .ok e) :
    decodeBinary moved = .ok e := by
  obtain ⟨found, hf, hfound⟩ := h.decode_eq_ok_iff.mp he
  obtain ⟨after, ha, hafter⟩ := Origin.exists_read? hr hf
  exact ho.decode_eq_ok_iff.mpr ⟨after, ha, ofCbor_rearranged hafter hfound⟩

/-- Whether a text is the key of two entries of the map, or of two entries of metadata in it. -/
def RepeatsKey (entries : List (Cbor × Cbor)) : Prop :=
  Cbor.Repeats entries ∨
    ∃ metadata, (.text "metadata", .map metadata) ∈ entries ∧ Cbor.Repeats metadata

theorem repeatsKey_of_asRead {room : Nat} {found : List (Cbor × Cbor)} (h : RepeatsKey entries)
    (hf : Cbor.asReadEntries? room entries = some found) : RepeatsKey found := by
  rcases h with h | ⟨metadata, hm, h⟩
  · exact .inl (Cbor.repeats_of_asRead h hf)
  · obtain ⟨key, item, hmem, hkey, hitem⟩ := Cbor.exists_mem_of_asRead hm hf
    obtain rfl := Cbor.eq_text_of_asRead hkey
    cases room with
    | zero => exact nomatch hitem
    | succ room =>
      obtain ⟨inner, hi, rfl⟩ := Option.map_eq_some_iff.mp hitem
      exact .inr ⟨inner, hmem, Cbor.repeats_of_asRead h hi⟩

theorem ofCbor_of_repeatsKey (h : RepeatsKey entries) : ofCbor (.map entries) ≠ .ok e := by
  intro he
  obtain ⟨hd, hread⟩ := ofCbor_eq_ok_iff.mp he
  rcases h with h | ⟨metadata, hm, h⟩
  · exact h.not_nodup hd
  · have hlookup := lookup_of_mem hd (Cbor.mem_named_iff.mpr hm)
    have hmetadata : binary.metadata (.map metadata) = some e.metadata := by
      have hentry := hread.metadata
      rwa [entryOr, hlookup] at hentry
    obtain ⟨m, hfields, _⟩ := map_eq_ok_iff.mp (toOption_eq_some_iff.mp hmetadata)
    exact h.not_nodup (Metadata.setFields_eq_ok_iff.mp hfields).1

theorem exists_mem_of_lookup {α : Type} {key : String} {read : Cbor → Option α} {a : α}
    (h : ((Cbor.named entries).lookup key).bind read = some a) :
    ∃ item, (.text key, item) ∈ entries ∧ read item = some a := by
  obtain ⟨item, hl, hread⟩ := Option.bind_eq_some_iff.mp h
  obtain ⟨front, back, hsplit, _⟩ := List.lookup_eq_some_iff.mp hl
  exact ⟨item, Cbor.mem_named_iff.mp (by simp [hsplit]), hread⟩

theorem eq_natural_of_unsigned {field : String} {item : Cbor} {n : Nat}
    (h : unsignedOf field item = .ok n) : item = .natural n := by
  cases item with
  | natural m =>
    rw [unsignedOf] at h
    split_ifs at h
    cases h
    rfl
  | _ => cases h

theorem states_of_ofCbor (h : ofCbor (.map entries) = .ok e) :
    (.text "version", .natural 1) ∈ entries ∧ (.text "algorithm", .text "dilithium") ∈ entries ∧
    ∃ n ≤ 255, (.text "parameterSet", .natural n) ∈ entries ∧ e.parameterSet.toNat = n := by
  obtain ⟨_, hread⟩ := ofCbor_eq_ok_iff.mp h
  obtain ⟨version, hv, hversion⟩ := exists_mem_of_lookup hread.version
  obtain ⟨algorithm, ha, halgorithm⟩ := exists_mem_of_lookup hread.algorithm
  obtain ⟨set, hp, hset⟩ := exists_mem_of_lookup hread.parameterSet
  obtain rfl := eq_natural_of_unsigned (toOption_eq_some_iff.mp hversion)
  obtain ⟨n, hn, hof⟩ := bind_eq_ok_iff.mp (toOption_eq_some_iff.mp hset)
  obtain rfl := eq_natural_of_unsigned hn
  have htext : algorithm = .text "dilithium" := by
    cases algorithm with
    | text s =>
      have hs : textOf "algorithm" (.text s) = .ok Envelope.algorithm :=
        toOption_eq_some_iff.mp halgorithm
      exact congrArg Cbor.text (Except.ok.inj hs)
    | _ => exact nomatch halgorithm
  rw [setOf] at hof
  split_ifs at hof with hlt
  have hnumber : e.parameterSet.toNat = n := by
    rw [← Except.ok.inj hof, UInt8.toNat_ofNat', Nat.mod_eq_of_lt hlt]
  exact ⟨hv, htext ▸ ha, n, by omega, hp, hnumber⟩

/-- A map of CBOR is refused in any order of its entries and those of its metadata, or is read as
the same envelope in all of them. It is refused if a text key occurs twice in either, and accepted
only if it states the version, the algorithm and a parameter set of one byte. -/
theorem order_is_free_and_keys_occur_once (origin : Origin) :
    (∀ entries other bytes moved, origin.Gives entries bytes → origin.Gives other moved →
      Cbor.Rearranged entries other →
      (decodeBinary bytes).toOption = (decodeBinary moved).toOption) ∧
    (∀ entries bytes, origin.Gives entries bytes → RepeatsKey entries →
      ∃ fault, decodeBinary bytes = .error fault) ∧
    ∀ bytes e, decodeBinary bytes = .ok e → ∃ entries, Cbor.read? bytes = some (.map entries) ∧
      (.text "version", .natural 1) ∈ entries ∧ (.text "algorithm", .text "dilithium") ∈ entries ∧
      ∃ n ≤ 255, (.text "parameterSet", .natural n) ∈ entries ∧ e.parameterSet.toNat = n := by
  refine ⟨fun entries other bytes moved h ho hr => ?_, fun entries bytes h hrepeats => ?_,
    fun bytes e he => ?_⟩
  · ext e
    rw [toOption_eq_some_iff, toOption_eq_some_iff]
    exact ⟨decodeBinary_rearranged h ho hr, decodeBinary_rearranged ho h hr.symm⟩
  · apply exists_error_of_ne_ok
    intro e he
    obtain ⟨found, hf, hfound⟩ := h.decode_eq_ok_iff.mp he
    cases origin with
    | found =>
      cases hf
      exact ofCbor_of_repeatsKey hrepeats hfound
    | written => exact ofCbor_of_repeatsKey (repeatsKey_of_asRead hrepeats hf) hfound
  · obtain ⟨entries, hread, hof⟩ := decodeBinary_eq_ok_iff.mp he
    exact ⟨entries, hread, states_of_ofCbor hof⟩

/-- Two maps, one of which has its entries and those of its metadata the other way round, and one
that repeats a key which nobody asks for. -/
theorem reversed_map_is_read_alike :
    let metadata : List (Cbor × Cbor) :=
      [(.text "note", .null), (.float [0, 0], .null), (.text "guardianId", .text "ann")]
    let entries : List (Cbor × Cbor) := [(.text "version", .natural 1),
      (.text "algorithm", .text "dilithium"), (.array [], .tagged 9 .null),
      (.text "parameterSet", .natural 255), (.text "metadata", .map metadata)]
    let other : List (Cbor × Cbor) := [(.text "metadata", .map metadata.reverse),
      (.text "parameterSet", .natural 255), (.array [], .tagged 9 .null),
      (.text "algorithm", .text "dilithium"), (.text "version", .natural 1)]
    let repeated : List (Cbor × Cbor) :=
      [(.text "x", .null), (.natural 0, .null), (.text "x", .null)]
    let bytes := (Cbor.map entries).encode
    let moved := (Cbor.map other).encode
    let refused := (Cbor.map repeated).encode
    Origin.written.Gives entries bytes ∧ Origin.written.Gives other moved ∧
    Cbor.Rearranged entries other ∧
    Origin.written.Gives repeated refused ∧ RepeatsKey repeated ∧
    (decodeBinary bytes).toOption = (decodeBinary moved).toOption ∧
    (decodeBinary bytes).toOption = some ⟨255, "", [], [], some { guardianId := some "ann" }⟩ ∧
    ∃ fault, decodeBinary refused = .error fault := by
  intro metadata entries other repeated bytes moved refused
  have hentries : Origin.written.Gives entries bytes := by
    refine ⟨?_, [], (List.append_nil bytes).symm⟩
    simp [Cbor.Writable, Cbor.WritableEntries, Cbor.WritableItems, entries, metadata]
    decide
  have hother : Origin.written.Gives other moved := by
    refine ⟨?_, [], (List.append_nil moved).symm⟩
    simp [Cbor.Writable, Cbor.WritableEntries, Cbor.WritableItems, other, metadata]
    decide
  have hrepeated : Origin.written.Gives repeated refused := by
    refine ⟨?_, [], (List.append_nil refused).symm⟩
    simp [Cbor.Writable, Cbor.WritableEntries, repeated]
    decide
  have hmoved : Cbor.Rearranged entries other := by
    refine ⟨entries.reverse, (List.reverse_perm entries).symm, ?_⟩
    have hmetadata : Cbor.SameEntries (.map metadata) (.map metadata.reverse) :=
      .inr ⟨_, _, rfl, rfl, (List.reverse_perm metadata).symm⟩
    exact .cons ⟨rfl, hmetadata⟩ (.cons ⟨rfl, .inl rfl⟩ (.cons ⟨rfl, .inl rfl⟩
      (.cons ⟨rfl, .inl rfl⟩ (.cons ⟨rfl, .inl rfl⟩ .nil))))
  have hkey : RepeatsKey repeated :=
    .inl ⟨"x", .null, .null, .cons_cons _ (.cons _ (.cons_cons _ .slnil))⟩
  obtain ⟨hsame, honce, _⟩ := order_is_free_and_keys_occur_once .written
  refine ⟨hentries, hother, hmoved, hrepeated, hkey, hsame _ _ _ _ hentries hother hmoved, ?_,
    honce _ _ hrepeated hkey⟩
  decide +kernel

end Envelope
end Countersign
