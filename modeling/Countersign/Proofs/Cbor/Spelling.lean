import Countersign.Proofs.Cbor.Head

/-! All spellings of an item: heads that are longer than needed, lengths that are left open, strings
in chunks. A spelling is read as its item whatever stands behind it, so no spelling is the front of
another one. -/

namespace Countersign.Cbor

variable {kind : Nat} {argument : Argument} {bytes head rest : Bytes}

/-! ### Heads -/

/-- Bytes that state a kind and an argument, whatever follows them. -/
def IsHead (kind : Nat) (argument : Argument) (head : Bytes) : Prop :=
  ∀ rest, readHead (head ++ rest) = some (kind, argument, rest)

theorem exists_isHead (h : readHead bytes = some (kind, argument, rest)) :
    ∃ head, bytes = head ++ rest ∧ IsHead kind argument head := by
  cases bytes with
  | nil => cases h
  | cons b more =>
    unfold readHead at h
    dsimp only at h
    split at h
    · rename_i hsmall
      cases h
      exact ⟨[b], rfl, fun rest => by simp [readHead, hsmall]⟩
    · rename_i hlarge
      split at h
      · rename_i hwide
        obtain ⟨⟨digits, after⟩, hcut, heq⟩ := Option.bind_eq_some_iff.mp h
        cases heq
        obtain ⟨rfl, hlength⟩ := of_cut? hcut
        refine ⟨b :: digits, rfl, fun rest => ?_⟩
        have hagain := cut?_append digits rest
        rw [hlength] at hagain
        simp [readHead, hlarge, hwide, hagain]
      · rename_i hnone
        split at h
        · rename_i hopen
          cases h
          exact ⟨[b], rfl, fun rest => by simp [readHead, hopen]⟩
        · cases h

theorem IsHead.exists_first (h : IsHead kind argument head) :
    ∃ b more, head = b :: more ∧ kind = b.toNat / 32 := by
  have hread := h []
  rw [List.append_nil] at hread
  exact readHead_kind hread

theorem IsHead.length_pos (h : IsHead kind argument head) : 0 < head.length := by
  obtain ⟨b, more, rfl, _⟩ := h.exists_first
  simp

theorem IsHead.exists_not_break (h : IsHead kind argument head)
    (ha : kind = 7 → argument ≠ .unbounded) :
    ∃ b more, head = b :: more ∧ isBreak b = false := by
  obtain ⟨b, more, rfl, hk⟩ := h.exists_first
  refine ⟨b, more, rfl, ?_⟩
  by_contra hb
  -- a break is read as a head too, but as one that no item has
  have hbreak : b = 0xff := by simpa [isBreak] using hb
  subst hbreak
  have hopen : readHead (0xff :: more) = some (7, .unbounded, more) := rfl
  have hread := h []
  rw [List.append_nil, hopen] at hread
  cases hread
  exact ha rfl rfl

/-! ### Strings -/

/-- Chunks of a string of open length, up to the break that ends it. -/
inductive SpellsChunks (kind : Nat) : Nat → List Bytes → Bytes → Prop where
  | close {levels : Nat} (hl : levels ≤ 1) : SpellsChunks kind levels [] [0xff]
  | closeInner {levels : Nat} {chunks : List Bytes} {t : Bytes} (hl : 1 < levels)
      (h : SpellsChunks kind (levels - 1) chunks t) : SpellsChunks kind levels chunks (0xff :: t)
  | openInner {levels : Nat} {chunks : List Bytes} {head t : Bytes}
      (hh : IsHead kind .unbounded head) (h : SpellsChunks kind (levels + 1) chunks t) :
      SpellsChunks kind levels chunks (head ++ t)
  | chunk {levels width : Nat} {chunk head t : Bytes} {chunks : List Bytes}
      (hh : IsHead kind (.given chunk.length width) head) (h : SpellsChunks kind levels chunks t) :
      SpellsChunks kind levels (chunk :: chunks) (head ++ chunk ++ t)

theorem SpellsChunks.readChunks {levels : Nat} {chunks : List Bytes} {t : Bytes}
    (h : SpellsChunks kind levels chunks t) (hk : kind ≠ 7) {fuel : Nat} (hf : t.length ≤ fuel)
    (rest : Bytes) : readChunks kind fuel levels (t ++ rest) = some (chunks, rest) := by
  induction h generalizing fuel with
  | close hl =>
    obtain ⟨fuel, rfl⟩ : ∃ m, fuel = m + 1 := ⟨fuel - 1, by simp at hf; omega⟩
    simp [Cbor.readChunks, isBreak, hl]
  | closeInner hl h ih =>
    simp only [List.length_cons] at hf
    obtain ⟨fuel, rfl⟩ : ∃ m, fuel = m + 1 := ⟨fuel - 1, by omega⟩
    have hl' : ¬ _ ≤ 1 := Nat.not_le.mpr hl
    simp [Cbor.readChunks, isBreak, hl', ih (show _ ≤ fuel by omega)]
  | @openInner levels chunks head t hh h ih =>
    have hpos := hh.length_pos
    simp only [List.length_append] at hf
    obtain ⟨fuel, rfl⟩ : ∃ m, fuel = m + 1 := ⟨fuel - 1, by omega⟩
    obtain ⟨b, more, rfl, hb⟩ := hh.exists_not_break (fun he => absurd he hk)
    have hread := hh (t ++ rest)
    rw [List.cons_append] at hread
    simp [Cbor.readChunks, hb, hread, ih (show _ ≤ fuel by omega)]
  | @chunk levels width chunk head t chunks hh h ih =>
    have hpos := hh.length_pos
    simp only [List.length_append] at hf
    obtain ⟨fuel, rfl⟩ : ∃ m, fuel = m + 1 := ⟨fuel - 1, by omega⟩
    obtain ⟨b, more, rfl, hb⟩ := hh.exists_not_break (fun he => absurd he hk)
    have hread := hh (chunk ++ (t ++ rest))
    rw [List.cons_append] at hread
    simp [Cbor.readChunks, hb, hread, cut?_append, ih (show _ ≤ fuel by omega)]

/-- A string by its head: in one piece, or in chunks. -/
inductive SpellsString (kind : Nat) : List Bytes → Bytes → Prop where
  | whole {content head : Bytes} {width : Nat}
      (hh : IsHead kind (.given content.length width) head) :
      SpellsString kind [content] (head ++ content)
  | chunks {chunks : List Bytes} {head t : Bytes} (hh : IsHead kind .unbounded head)
      (h : SpellsChunks kind 1 chunks t) : SpellsString kind chunks (head ++ t)

theorem SpellsString.exists_read {chunks : List Bytes} {t : Bytes}
    (h : SpellsString kind chunks t) (hk : kind ≠ 7) (rest : Bytes) :
    ∃ argument after, readHead (t ++ rest) = some (kind, argument, after) ∧
      readString kind argument after = some (chunks, rest) := by
  cases h with
  | @whole content head width hh =>
    refine ⟨_, content ++ rest, by rw [List.append_assoc, hh], ?_⟩
    simp [readString, cut?_append]
  | @chunks _ head t hh h =>
    refine ⟨_, t ++ rest, by rw [List.append_assoc, hh], ?_⟩
    exact h.readChunks hk (by rw [List.length_append]; omega) rest

/-! ### Items -/

mutual

/-- The spellings of an item that is read with room for so many levels. -/
inductive Spells : Nat → Cbor → Bytes → Prop where
  | natural {room n width : Nat} {t : Bytes} (hh : IsHead 0 (.given n width) t) :
      Spells room (natural n) t
  | negative {room n width : Nat} {t : Bytes} (hh : IsHead 1 (.given n width) t) :
      Spells room (negative n) t
  | octets {room : Nat} {chunks : List Bytes} {t : Bytes} (h : SpellsString 2 chunks t) :
      Spells room (octets chunks.flatten) t
  | text {room : Nat} {chunks : List Bytes} {s : String} {t : Bytes} (h : SpellsString 3 chunks t)
      (hs : joinText? chunks = some s) : Spells room (text s) t
  /-- A tag for integers and the short string behind it. -/
  | integer {room tag width widthInner : Nat} {head inner content : Bytes} {item : Cbor}
      (hh : IsHead 6 (.given tag width) head) (ht : tag = 2 ∨ tag = 3)
      (hi : IsHead 2 (.given content.length widthInner) inner) (hl : content.length ≤ 16)
      (hb : bigInteger? tag content = some item) : Spells room item (head ++ inner ++ content)
  | tagged {room tag width : Nat} {head t : Bytes} {item : Cbor}
      (hh : IsHead 6 (.given tag width) head) (hb : bigString? tag t = none)
      (h : Spells room item t) : Spells (room + 1) (tagged tag item) (head ++ t)
  | simple {room : Nat} {argument : Argument} {t : Bytes} {item : Cbor} (hh : IsHead 7 argument t)
      (hs : readSimple argument [] = some (item, [])) : Spells room item t
  | array {room width : Nat} {items : List Cbor} {head t : Bytes}
      (hh : IsHead 4 (.given items.length width) head) (h : SpellsItems room items t) :
      Spells (room + 1) (array items) (head ++ t)
  | openArray {room : Nat} {items : List Cbor} {head t : Bytes} (hh : IsHead 4 .unbounded head)
      (h : SpellsItems room items t) : Spells (room + 1) (array items) (head ++ t ++ [0xff])
  | map {room width : Nat} {entries : List (Cbor × Cbor)} {head t : Bytes}
      (hh : IsHead 5 (.given entries.length width) head) (h : SpellsEntries room entries t) :
      Spells (room + 1) (map entries) (head ++ t)
  | openMap {room : Nat} {entries : List (Cbor × Cbor)} {head t : Bytes}
      (hh : IsHead 5 .unbounded head) (h : SpellsEntries room entries t) :
      Spells (room + 1) (map entries) (head ++ t ++ [0xff])

inductive SpellsItems : Nat → List Cbor → Bytes → Prop where
  | nil {room : Nat} : SpellsItems room [] []
  | cons {room : Nat} {item : Cbor} {items : List Cbor} {t more : Bytes} (h : Spells room item t)
      (hr : SpellsItems room items more) : SpellsItems room (item :: items) (t ++ more)

inductive SpellsEntries : Nat → List (Cbor × Cbor) → Bytes → Prop where
  | nil {room : Nat} : SpellsEntries room [] []
  | cons {room : Nat} {key item : Cbor} {entries : List (Cbor × Cbor)} {k t more : Bytes}
      (hk : Spells room key k) (h : Spells room item t) (hr : SpellsEntries room entries more) :
      SpellsEntries room ((key, item) :: entries) (k ++ t ++ more)

end

theorem readSimple_of_nil {item : Cbor} (h : readSimple argument bytes = some (item, rest)) :
    rest = bytes ∧ ∀ other, readSimple argument other = some (item, other) := by
  unfold readSimple at h ⊢
  cases argument with
  | unbounded => exact nomatch h
  | given n width =>
    dsimp only at h ⊢
    split_ifs at h ⊢ <;> cases h <;> exact ⟨rfl, fun _ => rfl⟩

/-! ### Reading -/

theorem bigString?_of_isHead {tag : Nat} {more : Bytes} (hh : IsHead kind argument head)
    (h : bigString? tag (head ++ more) = none) (other : Bytes) :
    bigString? tag (head ++ other) = none := by
  have hmore := hh more
  have hother := hh other
  unfold bigString? at h ⊢
  rw [hmore] at h
  rw [hother]
  split_ifs at h ⊢
  · split at h
    · rename_i heq
      cases heq
      split_ifs at h with hl
      exact if_neg hl
    · rename_i hne
      split
      · rename_i heq
        cases heq
        exact absurd rfl (hne _ _ _)
      · rfl
  · rfl

theorem Spells.exists_head {room : Nat} {item : Cbor} {t : Bytes} (h : Spells room item t) :
    ∃ kind argument head more, t = head ++ more ∧ IsHead kind argument head ∧
      (kind = 7 → argument ≠ .unbounded) := by
  cases h with
  | natural hh => exact ⟨_, _, t, [], (List.append_nil t).symm, hh, nofun⟩
  | negative hh => exact ⟨_, _, t, [], (List.append_nil t).symm, hh, nofun⟩
  | octets h =>
    cases h with
    | whole hh => exact ⟨_, _, _, _, rfl, hh, nofun⟩
    | chunks hh _ => exact ⟨_, _, _, _, rfl, hh, nofun⟩
  | text h _ =>
    cases h with
    | whole hh => exact ⟨_, _, _, _, rfl, hh, nofun⟩
    | chunks hh _ => exact ⟨_, _, _, _, rfl, hh, nofun⟩
  | integer hh _ _ _ _ => exact ⟨_, _, _, _, List.append_assoc .., hh, nofun⟩
  | tagged hh _ _ => exact ⟨_, _, _, _, rfl, hh, nofun⟩
  | simple hh hs =>
    refine ⟨_, _, t, [], (List.append_nil t).symm, hh, fun _ ha => ?_⟩
    subst ha
    exact nomatch hs
  | array hh _ => exact ⟨_, _, _, _, rfl, hh, nofun⟩
  | openArray hh _ => exact ⟨_, _, _, _, List.append_assoc .., hh, nofun⟩
  | map hh _ => exact ⟨_, _, _, _, rfl, hh, nofun⟩
  | openMap hh _ => exact ⟨_, _, _, _, List.append_assoc .., hh, nofun⟩

theorem Spells.exists_not_break {room : Nat} {item : Cbor} {t : Bytes} (h : Spells room item t) :
    ∃ b more, t = b :: more ∧ isBreak b = false := by
  obtain ⟨kind, argument, head, more, rfl, hh, ha⟩ := h.exists_head
  obtain ⟨b, inner, rfl, hb⟩ := hh.exists_not_break ha
  exact ⟨b, inner ++ more, rfl, hb⟩

theorem Spells.length_pos {room : Nat} {item : Cbor} {t : Bytes} (h : Spells room item t) :
    0 < t.length := by
  obtain ⟨b, more, rfl, _⟩ := h.exists_not_break
  simp

theorem Spells.bigString?_append {room tag : Nat} {item : Cbor} {t more : Bytes}
    (h : Spells room item t) (hb : bigString? tag (t ++ more) = none) (other : Bytes) :
    bigString? tag (t ++ other) = none := by
  obtain ⟨kind, argument, head, inner, rfl, hh, _⟩ := h.exists_head
  rw [List.append_assoc] at hb ⊢
  exact bigString?_of_isHead hh hb _

mutual

-- induction on the spelling; each item costs one step, and so does each end of a list of them
theorem Spells.readItem {room : Nat} {item : Cbor} {t : Bytes} (h : Spells room item t) {fuel : Nat}
    (hf : 2 * t.length ≤ fuel) (rest : Bytes) :
    Cbor.readItem fuel room (t ++ rest) = some (item, rest) := by
  have hpos := h.length_pos
  obtain ⟨fuel, rfl⟩ : ∃ m, fuel = m + 1 := ⟨fuel - 1, by omega⟩
  match h with
  | .natural hh => simp [Cbor.readItem, hh rest]
  | .negative hh => simp [Cbor.readItem, hh rest]
  | .octets h =>
    obtain ⟨argument, after, hh, hs⟩ := h.exists_read (by decide) rest
    simp [Cbor.readItem, hh, hs]
  | .text h hs =>
    obtain ⟨argument, after, hh, hr⟩ := h.exists_read (by decide) rest
    simp [Cbor.readItem, hh, hr, hs]
  | @Spells.integer _ tag width widthInner head inner content item hh ht hi hl hb =>
    have hread := hh (inner ++ (content ++ rest))
    have hinner := hi (content ++ rest)
    have hbig : bigString? tag (inner ++ (content ++ rest)) =
        some (content.length, content ++ rest) := by
      simp [bigString?, ht, hinner, hl]
    simp [Cbor.readItem, hread, hbig, cut?_append, hb]
  | @Spells.tagged room tag width head t item hh hb h =>
    have hhead := hh.length_pos
    simp only [List.length_append] at hf
    have hread := hh (t ++ rest)
    -- what follows the item has no part in whether the tag makes an integer of it
    have hb' : bigString? tag (t ++ []) = none := by rw [List.append_nil, hb]
    have hnone := h.bigString?_append hb' rest
    simp [Cbor.readItem, hread, hnone, h.readItem (show _ ≤ fuel by omega) rest]
  | .simple hh hs =>
    have hr := (readSimple_of_nil hs).2 rest
    simp [Cbor.readItem, hh rest, hr]
  | @Spells.array room width items head t hh h =>
    have hhead := hh.length_pos
    simp only [List.length_append] at hf
    have hread := hh (t ++ rest)
    simp [Cbor.readItem, hread, h.readItems (show _ < fuel by omega) rest]
  | @Spells.openArray room items head t hh h =>
    have hhead := hh.length_pos
    simp only [List.length_append, List.length_singleton] at hf
    have hread := hh (t ++ 0xff :: rest)
    simp [Cbor.readItem, hread, h.readOpenItems (show _ < fuel by omega) rest]
  | @Spells.map room width entries head t hh h =>
    have hhead := hh.length_pos
    simp only [List.length_append] at hf
    have hread := hh (t ++ rest)
    simp [Cbor.readItem, hread, h.readEntries (show _ < fuel by omega) rest]
  | @Spells.openMap room entries head t hh h =>
    have hhead := hh.length_pos
    simp only [List.length_append, List.length_singleton] at hf
    have hread := hh (t ++ 0xff :: rest)
    simp [Cbor.readItem, hread, h.readOpenEntries (show _ < fuel by omega) rest]

theorem SpellsItems.readItems {room : Nat} {items : List Cbor} {t : Bytes}
    (h : SpellsItems room items t) {fuel : Nat} (hf : 2 * t.length < fuel) (rest : Bytes) :
    Cbor.readItems fuel room items.length (t ++ rest) = some (items, rest) := by
  obtain ⟨fuel, rfl⟩ : ∃ m, fuel = m + 1 := ⟨fuel - 1, by omega⟩
  match h with
  | .nil => simp [Cbor.readItems]
  | @SpellsItems.cons _ item items t more h hr =>
    have hpos := h.length_pos
    simp only [List.length_append] at hf
    simp [Cbor.readItems, h.readItem (show _ ≤ fuel by omega) (more ++ rest),
      hr.readItems (show _ < fuel by omega) rest]

theorem SpellsItems.readOpenItems {room : Nat} {items : List Cbor} {t : Bytes}
    (h : SpellsItems room items t) {fuel : Nat} (hf : 2 * t.length < fuel) (rest : Bytes) :
    Cbor.readOpenItems fuel room (t ++ 0xff :: rest) = some (items, rest) := by
  obtain ⟨fuel, rfl⟩ : ∃ m, fuel = m + 1 := ⟨fuel - 1, by omega⟩
  match h with
  | .nil => simp [Cbor.readOpenItems, isBreak]
  | @SpellsItems.cons _ item items t more h hr =>
    simp only [List.length_append] at hf
    have hpos := h.length_pos
    have hitem := h.readItem (show _ ≤ fuel by omega) (more ++ 0xff :: rest)
    have hitems := hr.readOpenItems (show _ < fuel by omega) rest
    obtain ⟨b, inner, rfl, hb⟩ := h.exists_not_break
    simp only [List.cons_append] at hitem
    simp [Cbor.readOpenItems, hb, hitem, hitems]

theorem SpellsEntries.readEntries {room : Nat} {entries : List (Cbor × Cbor)} {t : Bytes}
    (h : SpellsEntries room entries t) {fuel : Nat} (hf : 2 * t.length < fuel) (rest : Bytes) :
    Cbor.readEntries fuel room entries.length (t ++ rest) = some (entries, rest) := by
  obtain ⟨fuel, rfl⟩ : ∃ m, fuel = m + 1 := ⟨fuel - 1, by omega⟩
  match h with
  | .nil => simp [Cbor.readEntries]
  | @SpellsEntries.cons _ key item entries k t more hk h hr =>
    have hpos := hk.length_pos
    simp only [List.length_append] at hf
    simp [Cbor.readEntries, hk.readItem (show _ ≤ fuel by omega) (t ++ (more ++ rest)),
      h.readItem (show _ ≤ fuel by omega) (more ++ rest),
      hr.readEntries (show _ < fuel by omega) rest]

theorem SpellsEntries.readOpenEntries {room : Nat} {entries : List (Cbor × Cbor)} {t : Bytes}
    (h : SpellsEntries room entries t) {fuel : Nat} (hf : 2 * t.length < fuel) (rest : Bytes) :
    Cbor.readOpenEntries fuel room (t ++ 0xff :: rest) = some (entries, rest) := by
  obtain ⟨fuel, rfl⟩ : ∃ m, fuel = m + 1 := ⟨fuel - 1, by omega⟩
  match h with
  | .nil => simp [Cbor.readOpenEntries, isBreak]
  | @SpellsEntries.cons _ key item entries k t more hk h hr =>
    simp only [List.length_append] at hf
    have hpos := hk.length_pos
    have hkey := hk.readItem (show _ ≤ fuel by omega) (t ++ (more ++ 0xff :: rest))
    have hitem := h.readItem (show _ ≤ fuel by omega) (more ++ 0xff :: rest)
    have hentries := hr.readOpenEntries (show _ < fuel by omega) rest
    obtain ⟨b, inner, rfl, hb⟩ := hk.exists_not_break
    simp only [List.cons_append] at hkey
    simp [Cbor.readOpenEntries, hb, hkey, hitem, hentries]

end

/-- No spelling is a proper front of another. -/
theorem Spells.eq_of_append {room : Nat} {item other : Cbor} {t u rest more : Bytes}
    (h : Spells room item t) (ho : Spells room other u) (he : t ++ rest = u ++ more) :
    item = other ∧ t = u := by
  have hread := h.readItem (show _ ≤ 2 * (t.length + u.length) by omega) rest
  have hother := ho.readItem (show _ ≤ 2 * (t.length + u.length) by omega) more
  rw [he, hother] at hread
  cases hread
  exact ⟨rfl, List.append_cancel_right he⟩

end Countersign.Cbor
