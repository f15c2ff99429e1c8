import Countersign.Proofs.Cbor.Head

/-! What becomes of an item that is written and read again. A tag for integers makes one of a short
string behind it, and an item that stands too deep is not read; everything else comes back. -/

namespace Countersign.Cbor

mutual

/-- Whether a head has room for each number and length in the item, and each floating point number
has a length that there is. -/
def Writable : Cbor → Prop
  | natural n => n < 2 ^ 64
  | negative n => n < 2 ^ 64
  | octets content => content.length < 2 ^ 64
  | text s => (Text.utf8 s).length < 2 ^ 64
  | array items => items.length < 2 ^ 64 ∧ WritableItems items
  | map entries => entries.length < 2 ^ 64 ∧ WritableEntries entries
  | tagged tag item => tag < 2 ^ 64 ∧ Writable item
  | float content => content.length = 2 ∨ content.length = 4 ∨ content.length = 8
  | bool _ => True
  | null => True

def WritableItems : List Cbor → Prop
  | [] => True
  | item :: rest => Writable item ∧ WritableItems rest

def WritableEntries : List (Cbor × Cbor) → Prop
  | [] => True
  | (key, item) :: rest => Writable key ∧ Writable item ∧ WritableEntries rest

end

/-- The string of which the tag makes an integer. -/
def bigContent? (tag : Nat) : Cbor → Option Bytes
  | octets content => if (tag = 2 ∨ tag = 3) ∧ content.length ≤ 16 then some content else none
  | _ => none

mutual

/-- The item as it is read where containers may stand at most `room` levels deep. -/
def asRead? : Nat → Cbor → Option Cbor
  | room, tagged tag item =>
    match bigContent? tag item with
    | some content => bigInteger? tag content
    | none =>
      match room with
      | 0 => none
      | room + 1 => (asRead? room item).map (tagged tag)
  | 0, array _ => none
  | room + 1, array items => (asReadItems? room items).map array
  | 0, map _ => none
  | room + 1, map entries => (asReadEntries? room entries).map map
  | _, item => some item

def asReadItems? : Nat → List Cbor → Option (List Cbor)
  | _, [] => some []
  | room, item :: rest => do return (← asRead? room item) :: (← asReadItems? room rest)

def asReadEntries? : Nat → List (Cbor × Cbor) → Option (List (Cbor × Cbor))
  | _, [] => some []
  | room, (key, item) :: rest => do
    return (← asRead? room key, ← asRead? room item) :: (← asReadEntries? room rest)

end

theorem readHead_float {content : Bytes}
    (h : content.length = 2 ∨ content.length = 4 ∨ content.length = 8) (rest : Bytes) :
    readHead ((float content).encode ++ rest) =
      some (7, .given (ofBigEndian content) content.length, rest) := by
  have hstep : ∀ step < 4, content.length = 1 <<< step →
      readHead (UInt8.ofNat (32 * 7 + (24 + step)) :: content ++ rest) =
        some (7, .given (ofBigEndian content) content.length, rest) := by
    intro step hs hlength
    rw [readHead_large (by decide) hs hlength, hlength]
  rcases h with h | h | h
  · simpa [encode, h] using hstep 1 (by decide) h
  · simpa [encode, h] using hstep 2 (by decide) h
  · simpa [encode, h] using hstep 3 (by decide) h

theorem length_head_pos (kind n : Nat) : 0 < (head kind n).length := by
  unfold head
  split_ifs <;> simp

theorem length_encode_pos (item : Cbor) : 0 < item.encode.length := by
  match item with
  | natural n => exact length_head_pos 0 n
  | negative n => exact length_head_pos 1 n
  | octets content => exact List.length_append ▸ Nat.add_pos_left (length_head_pos 2 _) _
  | text s => exact List.length_append ▸ Nat.add_pos_left (length_head_pos 3 _) _
  | array items => exact List.length_append ▸ Nat.add_pos_left (length_head_pos 4 _) _
  | map entries => exact List.length_append ▸ Nat.add_pos_left (length_head_pos 5 _) _
  | tagged tag item => exact List.length_append ▸ Nat.add_pos_left (length_head_pos 6 _) _
  | float content => exact Nat.succ_pos _
  | bool false => decide
  | bool true => decide
  | null => decide

theorem bigString?_of_kind {kind tag : Nat} {argument : Argument} {bytes rest : Bytes}
    (h : readHead bytes = some (kind, argument, rest)) (hk : kind ≠ 2) :
    bigString? tag bytes = none := by
  simp only [bigString?, h]
  split_ifs
  · split
    · rename_i heq
      cases heq
      exact absurd rfl hk
    · rfl
  · rfl

theorem bigString?_encode {item : Cbor} (h : item.Writable) (tag : Nat) (rest : Bytes) :
    bigString? tag (item.encode ++ rest) =
      (bigContent? tag item).map fun content => (content.length, content ++ rest) := by
  have hother : ∀ {kind n : Nat} (more : Bytes), kind < 8 → kind ≠ 2 → n < 2 ^ 64 →
      bigString? tag (head kind n ++ more ++ rest) = none := by
    intro kind n more hk hne hn
    obtain ⟨width, hh⟩ := readHead_head kind hk hn (more ++ rest)
    rw [List.append_assoc]
    exact bigString?_of_kind hh hne
  -- the kind in the head is that of a string only for a string
  match item with
  | octets content =>
    obtain ⟨width, hh⟩ := readHead_head 2 (by decide) h (content ++ rest)
    simp only [encode, List.append_assoc, bigString?, hh, bigContent?]
    by_cases ht : tag = 2 ∨ tag = 3
    · by_cases hl : content.length ≤ 16 <;> simp [ht, hl]
    · simp [ht]
  | natural n => simpa [encode, bigContent?] using hother [] (by decide) (by decide) h
  | negative n => simpa [encode, bigContent?] using hother [] (by decide) (by decide) h
  | text s => exact hother _ (by decide) (by decide) h
  | array items => exact hother _ (by decide) (by decide) h.1
  | map entries => exact hother _ (by decide) (by decide) h.1
  | tagged tag item => exact hother _ (by decide) (by decide) h.1
  | float content => exact bigString?_of_kind (readHead_float h rest) (by decide)
  | bool false =>
    have hh : readHead (0xf4 :: rest) = some (7, .given 20 0, rest) := rfl
    exact bigString?_of_kind hh (by decide)
  | bool true =>
    have hh : readHead (0xf5 :: rest) = some (7, .given 21 0, rest) := rfl
    exact bigString?_of_kind hh (by decide)
  | null =>
    have hh : readHead (0xf6 :: rest) = some (7, .given 22 0, rest) := rfl
    exact bigString?_of_kind hh (by decide)

theorem readString_given (kind width : Nat) (content rest : Bytes) :
    readString kind (.given content.length width) (content ++ rest) = some ([content], rest) := by
  simp [readString, cut?_append]

theorem joinText?_utf8 (s : String) : joinText? [Text.utf8 s] = some s := by
  simp [joinText?, Text.ofUtf8?_utf8]

mutual

theorem readItem_encode (room fuel : Nat) (item : Cbor) (h : item.Writable)
    (hf : 2 * item.encode.length ≤ fuel) (rest : Bytes) :
    readItem fuel room (item.encode ++ rest) =
      (asRead? room item).map fun item => (item, rest) := by
  have hpos := length_encode_pos item
  obtain ⟨fuel, rfl⟩ : ∃ n, fuel = n + 1 := ⟨fuel - 1, by omega⟩
  match item with
  | natural n =>
    obtain ⟨width, hh⟩ := readHead_head 0 (by decide) h rest
    simp [encode, readItem, hh, asRead?]
  | negative n =>
    obtain ⟨width, hh⟩ := readHead_head 1 (by decide) h rest
    simp [encode, readItem, hh, asRead?]
  | octets content =>
    obtain ⟨width, hh⟩ := readHead_head 2 (by decide) h (content ++ rest)
    simp [encode, readItem, hh, readString_given, asRead?]
  | text s =>
    obtain ⟨width, hh⟩ := readHead_head 3 (by decide) h (Text.utf8 s ++ rest)
    simp [encode, readItem, hh, readString_given, joinText?_utf8, asRead?]
  | array items =>
    obtain ⟨hlength, hitems⟩ := h
    obtain ⟨width, hh⟩ := readHead_head 4 (by decide) hlength (encodeItems items ++ rest)
    cases room with
    | zero => simp [encode, readItem, hh, asRead?]
    | succ room =>
      have hhead := length_head_pos 4 items.length
      simp only [encode, List.length_append] at hf
      have hread := readItems_encode room fuel items hitems (by omega) rest
      simp [encode, readItem, hh, hread, asRead?, Function.comp_def]
  | map entries =>
    obtain ⟨hlength, hentries⟩ := h
    obtain ⟨width, hh⟩ := readHead_head 5 (by decide) hlength (encodeEntries entries ++ rest)
    cases room with
    | zero => simp [encode, readItem, hh, asRead?]
    | succ room =>
      have hhead := length_head_pos 5 entries.length
      simp only [encode, List.length_append] at hf
      have hread := readEntries_encode room fuel entries hentries (by omega) rest
      simp [encode, readItem, hh, hread, asRead?, Function.comp_def]
  | tagged tag item =>
    obtain ⟨htag, hitem⟩ := h
    obtain ⟨width, hh⟩ := readHead_head 6 (by decide) htag (item.encode ++ rest)
    have hhead := length_head_pos 6 tag
    have hbig := bigString?_encode hitem tag rest
    simp only [encode, List.length_append] at hf
    cases hc : bigContent? tag item with
    | some content =>
      rw [hc] at hbig
      cases hi : bigInteger? tag content <;>
        simp [encode, readItem, hh, hbig, asRead?, hc, cut?_append, hi]
    | none =>
      rw [hc] at hbig
      cases room with
      | zero => simp [encode, readItem, hh, hbig, asRead?, hc]
      | succ room =>
        have hread := readItem_encode room fuel item hitem (by omega) rest
        simp [encode, readItem, hh, hbig, asRead?, hc, hread, Function.comp_def]
  | float content =>
    have hh := readHead_float h rest
    have hb := bigEndian_ofBigEndian content
    have hw : 1 < content.length := by
      have hlength : content.length = 2 ∨ content.length = 4 ∨ content.length = 8 := h
      omega
    simp [readItem, hh, readSimple, hw, hb, asRead?]
  | bool false =>
    have hh : readHead (0xf4 :: rest) = some (7, .given 20 0, rest) :=
      readHead_small 7 20 (by decide) (by decide)
    simp [encode, readItem, hh, readSimple, asRead?]
  | bool true =>
    have hh : readHead (0xf5 :: rest) = some (7, .given 21 0, rest) :=
      readHead_small 7 21 (by decide) (by decide)
    simp [encode, readItem, hh, readSimple, asRead?]
  | null =>
    have hh : readHead (0xf6 :: rest) = some (7, .given 22 0, rest) :=
      readHead_small 7 22 (by decide) (by decide)
    simp [encode, readItem, hh, readSimple, asRead?]

theorem readItems_encode (room fuel : Nat) (items : List Cbor) (h : WritableItems items)
    (hf : 2 * (encodeItems items).length < fuel) (rest : Bytes) :
    readItems fuel room items.length (encodeItems items ++ rest) =
      (asReadItems? room items).map fun items => (items, rest) := by
  obtain ⟨fuel, rfl⟩ : ∃ n, fuel = n + 1 := ⟨fuel - 1, by omega⟩
  match items with
  | [] => simp [encodeItems, readItems, asReadItems?]
  | item :: items =>
    have hpos := length_encode_pos item
    simp only [encodeItems, List.length_append] at hf
    have hitem := readItem_encode room fuel item h.1 (by omega) (encodeItems items ++ rest)
    have hitems := readItems_encode room fuel items h.2 (by omega) rest
    simp only [encodeItems, List.append_assoc, List.length_cons, readItems, hitem, asReadItems?]
    cases asRead? room item with
    | none => rfl
    | some item => cases hr : asReadItems? room items <;> simp [hitems, hr]

theorem readEntries_encode (room fuel : Nat) (entries : List (Cbor × Cbor))
    (h : WritableEntries entries) (hf : 2 * (encodeEntries entries).length < fuel) (rest : Bytes) :
    readEntries fuel room entries.length (encodeEntries entries ++ rest) =
      (asReadEntries? room entries).map fun entries => (entries, rest) := by
  obtain ⟨fuel, rfl⟩ : ∃ n, fuel = n + 1 := ⟨fuel - 1, by omega⟩
  match entries with
  | [] => simp [encodeEntries, readEntries, asReadEntries?]
  | (key, item) :: entries =>
    have hpos := length_encode_pos key
    simp only [encodeEntries, List.length_append] at hf
    have hkey := readItem_encode room fuel key h.1 (by omega)
      (item.encode ++ (encodeEntries entries ++ rest))
    have hitem := readItem_encode room fuel item h.2.1 (by omega)
      (encodeEntries entries ++ rest)
    have hentries := readEntries_encode room fuel entries h.2.2 (by omega) rest
    simp only [encodeEntries, List.append_assoc, List.length_cons, readEntries, hkey,
      asReadEntries?]
    cases asRead? room key with
    | none => rfl
    | some key =>
      simp only [Option.map_some, Option.bind_eq_bind, Option.bind_some, hitem]
      cases asRead? room item with
      | none => rfl
      | some item => cases hr : asReadEntries? room entries <;> simp [hentries, hr]

end

theorem read?_encode_append {item : Cbor} (h : item.Writable) (rest : Bytes) :
    read? (item.encode ++ rest) = item.asRead? 256 := by
  have hlength : (item.encode ++ rest).length = item.encode.length + rest.length :=
    List.length_append
  rw [read?, readItem_encode 256 _ item h (by omega) rest, Option.map_map]
  exact Option.map_id'

theorem read?_encode_eq {item : Cbor} (h : item.Writable) :
    read? item.encode = item.asRead? 256 := by
  have hread := read?_encode_append h []
  rwa [List.append_nil] at hread

end Countersign.Cbor
