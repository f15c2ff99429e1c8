import Countersign.Envelope.Basic
import Mathlib.Data.List.Nodup
import Mathlib.Data.List.Perm.Basic

/-! What an envelope is read from: fields under names, in any order, among others that do not
matter. Its two forms differ in how the value of a single field is read, and in nothing else. -/

namespace Countersign

section

variable {α β γ : Type} {entries : List (String × β)} {key other : String} {default : α}
  {read : β → Option α}

/-- What `read` makes of the value under a key, and `default` where there is none. -/
def entryOr (entries : List (String × β)) (key : String) (default : α) (read : β → Option α) :
    Option α :=
  match entries.lookup key with
  | some value => read value
  | none => some default

@[simp]
theorem entryOr_nil : entryOr [] key default read = some default := rfl

@[simp]
theorem entryOr_cons_self (value : β) :
    entryOr ((key, value) :: entries) key default read = read value := by
  simp [entryOr]

@[simp]
theorem entryOr_cons_of_ne (h : key ≠ other) (value : β) :
    entryOr ((other, value) :: entries) key default read = entryOr entries key default read := by
  have hne : (key == other) = false := beq_eq_false_iff_ne.mpr h
  simp [entryOr, List.lookup_cons, hne]

theorem entryOr_of_not_mem (h : key ∉ entries.map Prod.fst) :
    entryOr entries key default read = some default := by
  have hnone : entries.lookup key = none := by
    apply List.lookup_eq_none_iff.mpr
    intro e he
    exact bne_iff_ne.mpr fun hk => h (List.mem_map.mpr ⟨e, he, hk.symm⟩)
  simp [entryOr, hnone]

theorem lookup_map (f : γ → β) (entries : List (String × γ)) (key : String) :
    (entries.map fun e => (e.1, f e.2)).lookup key = (entries.lookup key).map f := by
  induction entries with
  | nil => rfl
  | cons e rest ih =>
    obtain ⟨name, value⟩ := e
    by_cases h : key = name
    · simp [h]
    · have hne : (key == name) = false := beq_eq_false_iff_ne.mpr h
      simp [List.lookup_cons, hne, ih]

theorem entryOr_map (f : γ → β) (entries : List (String × γ)) :
    entryOr (entries.map fun e => (e.1, f e.2)) key default read =
      entryOr entries key default fun value => read (f value) := by
  rw [entryOr, lookup_map, entryOr]
  cases entries.lookup key <;> rfl

/-- A value that has to be there is one that is read instead of nothing. -/
theorem entryOr_none_eq_some_some {a : α} :
    entryOr entries key none (fun value => (read value).map some) = some (some a) ↔
      (entries.lookup key).bind read = some a := by
  unfold entryOr
  cases entries.lookup key <;> simp

end

namespace Metadata

variable {β γ : Type}

/-- Metadata whose three fields are read from the values under their names. -/
structure IsReadFrom (read : β → Option (Option String)) (entries : List (String × β))
    (m : Metadata) : Prop where
  guardianId : entryOr entries "guardianId" none read = some m.guardianId
  issuedAt : entryOr entries "issuedAt" none read = some m.issuedAt
  note : entryOr entries "note" none read = some m.note

theorem isReadFrom_map {read : β → Option (Option String)} {f : γ → β}
    {entries : List (String × γ)} {m : Metadata} :
    m.IsReadFrom read (entries.map fun e => (e.1, f e.2)) ↔
      m.IsReadFrom (fun value => read (f value)) entries := by
  constructor
  · rintro ⟨hg, hi, hn⟩
    rw [entryOr_map] at hg hi hn
    exact ⟨hg, hi, hn⟩
  · rintro ⟨hg, hi, hn⟩
    rw [← entryOr_map] at hg hi hn
    exact ⟨hg, hi, hn⟩

def entries (write : String → β) (m : Metadata) : List (String × β) :=
  m.guardianId.toList.map (fun s => ("guardianId", write s)) ++
    m.issuedAt.toList.map (fun s => ("issuedAt", write s)) ++
    m.note.toList.map (fun s => ("note", write s))

theorem exists_of_mem_entries {write : String → β} {m : Metadata} {e : String × β}
    (h : e ∈ m.entries write) : ∃ s, e.2 = write s := by
  simp only [entries, List.mem_append, List.mem_map] at h
  rcases h with (⟨s, _, rfl⟩ | ⟨s, _, rfl⟩) | ⟨s, _, rfl⟩ <;> exact ⟨s, rfl⟩

theorem distinct_entries (write : String → β) (m : Metadata) :
    ((m.entries write).map Prod.fst).Nodup := by
  obtain ⟨guardianId, issuedAt, note⟩ := m
  cases guardianId <;> cases issuedAt <;> cases note <;> simp [entries]

theorem isReadFrom_entries {write : String → β} {read : β → Option (Option String)}
    (h : ∀ s, read (write s) = some (some s)) (m : Metadata) :
    m.IsReadFrom read (m.entries write) := by
  obtain ⟨guardianId, issuedAt, note⟩ := m
  cases guardianId <;> cases issuedAt <;> cases note <;> constructor <;> simp [entries, h]

end Metadata

namespace Envelope

variable {β γ : Type}

/-- How the values of the fields are read. -/
structure FieldReaders (β : Type) where
  version : β → Option Nat
  algorithm : β → Option String
  parameterSet : β → Option UInt8
  digest : β → Option String
  publicKey : β → Option Bytes
  signature : β → Option Bytes
  metadata : β → Option (Option Metadata)

/-- An envelope whose fields are read from the values under their names. Version, algorithm and
parameter set have to be among them. -/
structure IsReadFrom (readers : FieldReaders β) (entries : List (String × β)) (e : Envelope) :
    Prop where
  version : (entries.lookup "version").bind readers.version = some version
  algorithm : (entries.lookup "algorithm").bind readers.algorithm = some algorithm
  parameterSet : (entries.lookup "parameterSet").bind readers.parameterSet = some e.parameterSet
  digest : entryOr entries "digest" "" readers.digest = some e.digest
  publicKey : entryOr entries "publicKey" [] readers.publicKey = some e.publicKey
  signature : entryOr entries "signature" [] readers.signature = some e.signature
  metadata : entryOr entries "metadata" none readers.metadata = some e.metadata

/-- The readers of values that other values are made from. -/
def FieldReaders.comap (readers : FieldReaders β) (f : γ → β) : FieldReaders γ where
  version value := readers.version (f value)
  algorithm value := readers.algorithm (f value)
  parameterSet value := readers.parameterSet (f value)
  digest value := readers.digest (f value)
  publicKey value := readers.publicKey (f value)
  signature value := readers.signature (f value)
  metadata value := readers.metadata (f value)

theorem isReadFrom_map {readers : FieldReaders β} {f : γ → β} {entries : List (String × γ)}
    {e : Envelope} : e.IsReadFrom readers (entries.map fun e => (e.1, f e.2)) ↔
      e.IsReadFrom (readers.comap f) entries := by
  constructor
  · rintro ⟨hv, ha, hp, hd, hk, hs, hm⟩
    simp only [lookup_map, Option.bind_map, entryOr_map] at hv ha hp hd hk hs hm
    exact ⟨hv, ha, hp, hd, hk, hs, hm⟩
  · rintro ⟨hv, ha, hp, hd, hk, hs, hm⟩
    constructor <;> simp only [lookup_map, Option.bind_map, entryOr_map]
    exacts [hv, ha, hp, hd, hk, hs, hm]

structure FieldWriters (β : Type) where
  natural : Nat → β
  text : String → β
  bytes : Bytes → β
  metadata : Metadata → β

def entries (w : FieldWriters β) (e : Envelope) : List (String × β) :=
  [("version", w.natural version), ("algorithm", w.text algorithm),
    ("parameterSet", w.natural e.parameterSet.toNat), ("digest", w.text e.digest),
    ("publicKey", w.bytes e.publicKey), ("signature", w.bytes e.signature)] ++
    e.metadata.toList.map fun m => ("metadata", w.metadata m)

theorem exists_of_mem_entries {w : FieldWriters β} {e : Envelope} {f : String × β}
    (h : f ∈ e.entries w) : (∃ n, f.2 = w.natural n) ∨ (∃ s, f.2 = w.text s) ∨
      (∃ b, f.2 = w.bytes b) ∨ ∃ m, f.2 = w.metadata m := by
  simp only [entries, List.mem_append, List.mem_cons, List.not_mem_nil, or_false, List.mem_map] at h
  rcases h with (rfl | rfl | rfl | rfl | rfl | rfl) | ⟨m, _, rfl⟩
  · exact .inl ⟨_, rfl⟩
  · exact .inr (.inl ⟨_, rfl⟩)
  · exact .inl ⟨_, rfl⟩
  · exact .inr (.inl ⟨_, rfl⟩)
  · exact .inr (.inr (.inl ⟨_, rfl⟩))
  · exact .inr (.inr (.inl ⟨_, rfl⟩))
  · exact .inr (.inr (.inr ⟨m, rfl⟩))

theorem distinct_entries (w : FieldWriters β) (e : Envelope) :
    ((e.entries w).map Prod.fst).Nodup := by
  obtain ⟨parameterSet, digest, publicKey, signature, metadata⟩ := e
  cases metadata <;> simp [entries]

structure FieldReaders.Undoes (readers : FieldReaders β) (w : FieldWriters β) : Prop where
  version : readers.version (w.natural Envelope.version) = some Envelope.version
  algorithm : readers.algorithm (w.text Envelope.algorithm) = some Envelope.algorithm
  parameterSet : ∀ n : UInt8, readers.parameterSet (w.natural n.toNat) = some n
  digest : ∀ s, readers.digest (w.text s) = some s
  publicKey : ∀ b, readers.publicKey (w.bytes b) = some b
  signature : ∀ b, readers.signature (w.bytes b) = some b
  metadata : ∀ m, readers.metadata (w.metadata m) = some (some m)

theorem isReadFrom_entries {readers : FieldReaders β} {w : FieldWriters β} (h : readers.Undoes w)
    (e : Envelope) : e.IsReadFrom readers (e.entries w) := by
  obtain ⟨parameterSet, digest, publicKey, signature, metadata⟩ := e
  refine ⟨h.version, h.algorithm, h.parameterSet parameterSet, ?_, ?_, ?_, ?_⟩
  · simp [entries, h.digest]
  · simp [entries, h.publicKey]
  · simp [entries, h.signature]
  · cases metadata <;> simp [entries, h.metadata]

end Envelope

/-! ### Fields in another order, and values that are read alike -/

section

variable {κ β : Type} [BEq κ] [LawfulBEq κ] {entries other : List (κ × β)} {key : κ}

theorem lookup_perm (h : entries.Perm other) (hd : (entries.map Prod.fst).Nodup) (key : κ) :
    entries.lookup key = other.lookup key := by
  induction h with
  | nil => rfl
  | cons e _ ih =>
    obtain ⟨_, hd⟩ := List.nodup_cons.mp hd
    rw [List.lookup_cons, List.lookup_cons, ih hd]
  | swap e f rest =>
    obtain ⟨name, value⟩ := e
    obtain ⟨other, held⟩ := f
    have hne : other ≠ name := by
      intro heq
      exact (List.nodup_cons.mp hd).1 (by simp [heq])
    by_cases hname : key = name
    · have hother : (key == other) = false := by simpa [hname] using hne.symm
      simp [List.lookup_cons, hname ▸ hother, hname]
    · have hkey : (key == name) = false := beq_eq_false_iff_ne.mpr hname
      simp [List.lookup_cons, hkey]
  | trans hl _ ihl ihr => rw [ihl hd, ihr ((hl.map Prod.fst).nodup_iff.mp hd)]

theorem lookup_of_mem {value : β} (hd : (entries.map Prod.fst).Nodup)
    (h : (key, value) ∈ entries) : entries.lookup key = some value := by
  obtain ⟨front, back, rfl⟩ := List.append_of_mem h
  rw [lookup_perm List.perm_middle hd, List.lookup_cons_self]

end

section

variable {α β : Type} {entries other : List (String × β)} {read : β → Option α} {key : String}

theorem keys_eq {same : β → β → Prop}
    (h : List.Forall₂ (fun e f => e.1 = f.1 ∧ same e.2 f.2) entries other) :
    entries.map Prod.fst = other.map Prod.fst := by
  induction h with
  | nil => rfl
  | cons hef _ ih => rw [List.map_cons, List.map_cons, hef.1, ih]

theorem lookup_map_congr
    (h : List.Forall₂ (fun e f => e.1 = f.1 ∧ read e.2 = read f.2) entries other) (key : String) :
    (entries.lookup key).map read = (other.lookup key).map read := by
  induction h with
  | nil => rfl
  | @cons e f _ _ hef _ ih =>
    rw [List.lookup_cons, List.lookup_cons, ← hef.1]
    cases key == e.1
    · exact ih
    · exact congrArg some hef.2

theorem lookup_bind_congr
    (h : List.Forall₂ (fun e f => e.1 = f.1 ∧ read e.2 = read f.2) entries other) (key : String) :
    (entries.lookup key).bind read = (other.lookup key).bind read := by
  have hread : ∀ held : List (String × β),
      (held.lookup key).bind read = ((held.lookup key).map read).bind id := by
    intro held
    rw [Option.bind_map, Function.id_comp]
  rw [hread, hread, lookup_map_congr h]

theorem entryOr_congr
    (h : List.Forall₂ (fun e f => e.1 = f.1 ∧ read e.2 = read f.2) entries other) (key : String)
    (default : α) : entryOr entries key default read = entryOr other key default read := by
  have hread : ∀ held : List (String × β),
      entryOr held key default read = ((held.lookup key).map read).getD (some default) := by
    intro held
    unfold entryOr
    cases held.lookup key <;> rfl
  rw [hread, hread, lookup_map_congr h]

end

namespace Metadata

variable {β : Type} {read : β → Option (Option String)} {entries other : List (String × β)}
  {m : Metadata}

theorem isReadFrom_perm (h : entries.Perm other) (hd : (entries.map Prod.fst).Nodup) :
    m.IsReadFrom read entries ↔ m.IsReadFrom read other := by
  have hsame : ∀ key, entryOr entries key none read = entryOr other key none read := by
    intro key
    rw [entryOr, entryOr, lookup_perm h hd]
  constructor
  · rintro ⟨hg, hi, hn⟩
    exact ⟨hsame _ ▸ hg, hsame _ ▸ hi, hsame _ ▸ hn⟩
  · rintro ⟨hg, hi, hn⟩
    exact ⟨hsame _ ▸ hg, hsame _ ▸ hi, hsame _ ▸ hn⟩

end Metadata

namespace Envelope

variable {β : Type} {readers : FieldReaders β} {entries other : List (String × β)} {e : Envelope}

theorem isReadFrom_perm (h : entries.Perm other) (hd : (entries.map Prod.fst).Nodup) :
    e.IsReadFrom readers entries ↔ e.IsReadFrom readers other := by
  have hlookup : ∀ key, entries.lookup key = other.lookup key := lookup_perm h hd
  constructor
  · rintro ⟨hv, ha, hp, hdigest, hk, hs, hm⟩
    simp only [entryOr, hlookup] at hv ha hp hdigest hk hs hm
    exact ⟨hv, ha, hp, hdigest, hk, hs, hm⟩
  · rintro ⟨hv, ha, hp, hdigest, hk, hs, hm⟩
    simp only [entryOr, ← hlookup] at hv ha hp hdigest hk hs hm
    exact ⟨hv, ha, hp, hdigest, hk, hs, hm⟩

/-- Values that no reader of a field tells apart. -/
structure FieldReaders.Alike (readers : FieldReaders β) (value other : β) : Prop where
  version : readers.version value = readers.version other
  algorithm : readers.algorithm value = readers.algorithm other
  parameterSet : readers.parameterSet value = readers.parameterSet other
  digest : readers.digest value = readers.digest other
  publicKey : readers.publicKey value = readers.publicKey other
  signature : readers.signature value = readers.signature other
  metadata : readers.metadata value = readers.metadata other

theorem IsReadFrom.of_alike
    (h : List.Forall₂ (fun e f => e.1 = f.1 ∧ readers.Alike e.2 f.2) entries other)
    (he : e.IsReadFrom readers entries) : e.IsReadFrom readers other where
  version := lookup_bind_congr (h.imp fun _ _ hef => ⟨hef.1, hef.2.version⟩) _ ▸ he.version
  algorithm := lookup_bind_congr (h.imp fun _ _ hef => ⟨hef.1, hef.2.algorithm⟩) _ ▸ he.algorithm
  parameterSet :=
    lookup_bind_congr (h.imp fun _ _ hef => ⟨hef.1, hef.2.parameterSet⟩) _ ▸ he.parameterSet
  digest := entryOr_congr (h.imp fun _ _ hef => ⟨hef.1, hef.2.digest⟩) _ _ ▸ he.digest
  publicKey := entryOr_congr (h.imp fun _ _ hef => ⟨hef.1, hef.2.publicKey⟩) _ _ ▸ he.publicKey
  signature := entryOr_congr (h.imp fun _ _ hef => ⟨hef.1, hef.2.signature⟩) _ _ ▸ he.signature
  metadata := entryOr_congr (h.imp fun _ _ hef => ⟨hef.1, hef.2.metadata⟩) _ _ ▸ he.metadata

end Envelope

end Countersign
