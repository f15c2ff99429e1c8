import Countersign.Proofs.Cbor.Encoding
import Countersign.Proofs.Cbor.Reading

/-! Items come back when they are read, and are written in definite lengths with the shortest heads,
as long as a head has room for each number and the reader for each level. -/

namespace Countersign.Cbor

mutual

/-- Whether the item holds neither tags nor floating point numbers, numbers and lengths of at most
eight bytes, and lists and maps at most `room` levels deep. -/
def Fits (room : Nat) : Cbor → Prop
  | natural n => n < 2 ^ 64
  | negative n => n < 2 ^ 64
  | octets content => content.length < 2 ^ 64
  | text s => (Text.utf8 s).length < 2 ^ 64
  | array items => 0 < room ∧ items.length < 2 ^ 64 ∧ FitItems (room - 1) items
  | map entries => 0 < room ∧ entries.length < 2 ^ 64 ∧ FitEntries (room - 1) entries
  | tagged _ _ => False
  | float _ => False
  | bool _ => True
  | null => True

def FitItems (room : Nat) : List Cbor → Prop
  | [] => True
  | item :: rest => Fits room item ∧ FitItems room rest

def FitEntries (room : Nat) : List (Cbor × Cbor) → Prop
  | [] => True
  | (key, item) :: rest => Fits room key ∧ Fits room item ∧ FitEntries room rest

end

theorem fitEntries_text {room : Nat} {fields : List (String × Cbor)}
    (h : ∀ e ∈ fields, (Text.utf8 e.1).length < 2 ^ 64 ∧ e.2.Fits room) :
    FitEntries room (fields.map fun e => (.text e.1, e.2)) := by
  induction fields with
  | nil => exact trivial
  | cons e rest ih =>
    obtain ⟨hkey, hitem⟩ := h e List.mem_cons_self
    exact ⟨hkey, hitem, ih fun other ho => h other (List.mem_cons_of_mem _ ho)⟩

mutual

/-- An item in definite lengths with the shortest heads. -/
inductive Written : Cbor → Bytes → Prop where
  | natural {n : Nat} {h : Bytes} (hh : IsShortestHead 0 n h) : Written (natural n) h
  | negative {n : Nat} {h : Bytes} (hh : IsShortestHead 1 n h) : Written (negative n) h
  | octets {content h : Bytes} (hh : IsShortestHead 2 content.length h) :
      Written (octets content) (h ++ content)
  | text {s : String} {h : Bytes} (hh : IsShortestHead 3 (Text.utf8 s).length h) :
      Written (text s) (h ++ Text.utf8 s)
  | array {items : List Cbor} {h t : Bytes} (hh : IsShortestHead 4 items.length h)
      (ht : WrittenItems items t) : Written (array items) (h ++ t)
  | map {entries : List (Cbor × Cbor)} {h t : Bytes} (hh : IsShortestHead 5 entries.length h)
      (ht : WrittenEntries entries t) : Written (map entries) (h ++ t)
  | false : Written (bool false) [0xf4]
  | true : Written (bool true) [0xf5]
  | null : Written null [0xf6]

inductive WrittenItems : List Cbor → Bytes → Prop where
  | nil : WrittenItems [] []
  | cons {item : Cbor} {items : List Cbor} {t rest : Bytes} (h : Written item t)
      (hr : WrittenItems items rest) : WrittenItems (item :: items) (t ++ rest)

inductive WrittenEntries : List (Cbor × Cbor) → Bytes → Prop where
  | nil : WrittenEntries [] []
  | cons {key item : Cbor} {entries : List (Cbor × Cbor)} {k t rest : Bytes} (hk : Written key k)
      (h : Written item t) (hr : WrittenEntries entries rest) :
      WrittenEntries ((key, item) :: entries) (k ++ t ++ rest)

end

mutual

theorem written_encode {room : Nat} (item : Cbor) (h : item.Fits room) :
    Written item item.encode := by
  match item with
  | natural n => exact .natural (isShortestHead_head 0 (by decide) h)
  | negative n => exact .negative (isShortestHead_head 1 (by decide) h)
  | octets content => exact .octets (isShortestHead_head 2 (by decide) h)
  | text s => exact .text (isShortestHead_head 3 (by decide) h)
  | array items =>
    exact .array (isShortestHead_head 4 (by decide) h.2.1) (writtenItems_encode items h.2.2)
  | map entries =>
    exact .map (isShortestHead_head 5 (by decide) h.2.1) (writtenEntries_encode entries h.2.2)
  | tagged _ _ => exact h.elim
  | float _ => exact h.elim
  | bool false => exact .false
  | bool true => exact .true
  | null => exact .null

theorem writtenItems_encode {room : Nat} (items : List Cbor) (h : FitItems room items) :
    WrittenItems items (encodeItems items) := by
  match items with
  | [] => exact .nil
  | item :: rest => exact .cons (written_encode item h.1) (writtenItems_encode rest h.2)

theorem writtenEntries_encode {room : Nat} (entries : List (Cbor × Cbor))
    (h : FitEntries room entries) : WrittenEntries entries (encodeEntries entries) := by
  match entries with
  | [] => exact .nil
  | (key, item) :: rest =>
    exact .cons (written_encode key h.1) (written_encode item h.2.1)
      (writtenEntries_encode rest h.2.2)

end

/-! ### Reading -/

mutual

theorem asRead?_of_fits {room : Nat} (item : Cbor) (h : item.Fits room) :
    item.Writable ∧ item.asRead? room = some item := by
  match item with
  | natural n => exact ⟨h, rfl⟩
  | negative n => exact ⟨h, rfl⟩
  | octets content => exact ⟨h, rfl⟩
  | text s => exact ⟨h, rfl⟩
  | array items =>
    obtain ⟨hroom, hlength, hitems⟩ := h
    obtain ⟨room, rfl⟩ : ∃ n, room = n + 1 := ⟨room - 1, by omega⟩
    obtain ⟨hw, hread⟩ := asReadItems?_of_fits items hitems
    exact ⟨⟨hlength, hw⟩, congrArg (Option.map array) hread⟩
  | map entries =>
    obtain ⟨hroom, hlength, hentries⟩ := h
    obtain ⟨room, rfl⟩ : ∃ n, room = n + 1 := ⟨room - 1, by omega⟩
    obtain ⟨hw, hread⟩ := asReadEntries?_of_fits entries hentries
    exact ⟨⟨hlength, hw⟩, congrArg (Option.map map) hread⟩
  | tagged _ _ => exact h.elim
  | float _ => exact h.elim
  | bool _ => exact ⟨trivial, rfl⟩
  | null => exact ⟨trivial, rfl⟩

theorem asReadItems?_of_fits {room : Nat} (items : List Cbor) (h : FitItems room items) :
    WritableItems items ∧ asReadItems? room items = some items := by
  match items with
  | [] => exact ⟨trivial, rfl⟩
  | item :: rest =>
    obtain ⟨hw, hread⟩ := asRead?_of_fits item h.1
    obtain ⟨hws, hreads⟩ := asReadItems?_of_fits rest h.2
    exact ⟨⟨hw, hws⟩, by simp [asReadItems?, hread, hreads]⟩

theorem asReadEntries?_of_fits {room : Nat} (entries : List (Cbor × Cbor))
    (h : FitEntries room entries) :
    WritableEntries entries ∧ asReadEntries? room entries = some entries := by
  match entries with
  | [] => exact ⟨trivial, rfl⟩
  | (key, item) :: rest =>
    obtain ⟨hk, hkey⟩ := asRead?_of_fits key h.1
    obtain ⟨hw, hread⟩ := asRead?_of_fits item h.2.1
    obtain ⟨hws, hreads⟩ := asReadEntries?_of_fits rest h.2.2
    exact ⟨⟨hk, hw, hws⟩, by simp [asReadEntries?, hkey, hread, hreads]⟩

end

theorem read?_encode {item : Cbor} (h : item.Fits 256) : read? item.encode = some item := by
  obtain ⟨hw, hread⟩ := asRead?_of_fits item h
  rw [read?_encode_eq hw, hread]

theorem spells_encode {room : Nat} {item : Cbor} (h : item.Fits room) :
    Spells room item item.encode := by
  obtain ⟨hw, hread⟩ := asRead?_of_fits item h
  have hitem := readItem_encode room _ item hw (Nat.le_refl _) []
  rw [hread] at hitem
  obtain ⟨t, hbytes, ht⟩ := exists_spells _ hitem
  rwa [List.append_cancel_right hbytes]

end Countersign.Cbor
