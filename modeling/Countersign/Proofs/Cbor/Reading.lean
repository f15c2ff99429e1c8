import Countersign.Proofs.Cbor.Spelling

/-! What is read off the front of bytes is what the bytes that are taken off spell. -/

namespace Countersign.Cbor

variable {kind n : Nat} {argument : Argument} {bytes rest : Bytes}

theorem exists_spellsChunks {fuel levels : Nat} {chunks : List Bytes}
    (h : readChunks kind fuel levels bytes = some (chunks, rest)) :
    ∃ t, bytes = t ++ rest ∧ SpellsChunks kind levels chunks t := by
  induction fuel generalizing levels bytes chunks with
  | zero => cases h
  | succ fuel ih =>
    cases bytes with
    | nil => cases h
    | cons b more =>
      rw [readChunks] at h
      split at h
      · rename_i hb
        have hbreak : b = 0xff := by simpa [isBreak] using hb
        subst hbreak
        split at h
        · rename_i hl
          cases h
          exact ⟨[0xff], rfl, .close hl⟩
        · rename_i hl
          obtain ⟨t, rfl, ht⟩ := ih h
          exact ⟨0xff :: t, rfl, .closeInner (by omega) ht⟩
      · split at h
        · rename_i other argument after hh
          obtain ⟨head, hbytes, hhead⟩ := exists_isHead hh
          split at h
          · cases h
          · rename_i hkind
            have hsame : other = kind := by simpa using hkind
            subst hsame
            cases argument with
            | unbounded =>
              obtain ⟨t, rfl, ht⟩ := ih h
              exact ⟨head ++ t, by rw [hbytes, List.append_assoc], .openInner hhead ht⟩
            | given n width =>
              obtain ⟨⟨chunk, behind⟩, hcut, h⟩ := Option.bind_eq_some_iff.mp h
              obtain ⟨⟨chunks, last⟩, hchunks, h⟩ := Option.bind_eq_some_iff.mp h
              cases h
              obtain ⟨rfl, rfl⟩ := of_cut? hcut
              obtain ⟨t, rfl, ht⟩ := ih hchunks
              exact ⟨head ++ chunk ++ t, by simp [hbytes], .chunk hhead ht⟩
        · cases h

theorem exists_spellsString {chunks : List Bytes} {after : Bytes}
    (hh : readHead bytes = some (kind, argument, after))
    (h : readString kind argument after = some (chunks, rest)) :
    ∃ t, bytes = t ++ rest ∧ SpellsString kind chunks t := by
  obtain ⟨head, rfl, hhead⟩ := exists_isHead hh
  cases argument with
  | given n width =>
    obtain ⟨⟨content, behind⟩, hcut, h⟩ := Option.bind_eq_some_iff.mp h
    cases h
    obtain ⟨rfl, rfl⟩ := of_cut? hcut
    exact ⟨head ++ content, by rw [List.append_assoc], .whole hhead⟩
  | unbounded =>
    obtain ⟨t, rfl, ht⟩ := exists_spellsChunks h
    exact ⟨head ++ t, by rw [List.append_assoc], .chunks hhead ht⟩

theorem exists_of_bigString? {tag : Nat} (h : bigString? tag bytes = some (n, rest)) :
    (tag = 2 ∨ tag = 3) ∧ n ≤ 16 ∧ ∃ width, readHead bytes = some (2, .given n width, rest) := by
  unfold bigString? at h
  split at h
  · split at h
    · split at h
      · cases h
        exact ⟨‹_›, ‹_›, _, ‹_›⟩
      · cases h
    · cases h
  · cases h

section

variable {room width : Nat} {item : Cbor} {items : List Cbor} {entries : List (Cbor × Cbor)}
  {after : Bytes}

theorem spells_of_simple (hh : readHead bytes = some (7, argument, after))
    (h : readSimple argument after = some (item, rest)) :
    ∃ t, bytes = t ++ rest ∧ Spells room item t := by
  obtain ⟨head, rfl, hhead⟩ := exists_isHead hh
  obtain ⟨rfl, hs⟩ := readSimple_of_nil h
  exact ⟨head, rfl, .simple hhead (hs [])⟩

theorem spells_of_integer {tag : Nat} {inner content : Bytes}
    (hh : readHead bytes = some (6, .given tag width, after))
    (hb : bigString? tag after = some (n, inner)) (hc : cut? n inner = some (content, rest))
    (hi : bigInteger? tag content = some item) : ∃ t, bytes = t ++ rest ∧ Spells room item t := by
  obtain ⟨head, rfl, hhead⟩ := exists_isHead hh
  obtain ⟨ht, hl, widthInner, hr⟩ := exists_of_bigString? hb
  obtain ⟨headInner, rfl, hinner⟩ := exists_isHead hr
  obtain ⟨rfl, rfl⟩ := of_cut? hc
  exact ⟨head ++ headInner ++ content, by simp, .integer hhead ht hinner hl hi⟩

theorem spells_of_tagged {tag : Nat} (hh : readHead bytes = some (6, .given tag width, after))
    (hb : bigString? tag after = none) (h : ∃ t, after = t ++ rest ∧ Spells room item t) :
    ∃ t, bytes = t ++ rest ∧ Spells (room + 1) (tagged tag item) t := by
  obtain ⟨head, rfl, hhead⟩ := exists_isHead hh
  obtain ⟨t, rfl, ht⟩ := h
  have hnone := ht.bigString?_append hb []
  rw [List.append_nil] at hnone
  exact ⟨head ++ t, by rw [List.append_assoc], .tagged hhead hnone ht⟩

theorem spells_of_array (hh : readHead bytes = some (4, .given n width, after))
    (h : ∃ t, after = t ++ rest ∧ items.length = n ∧ SpellsItems room items t) :
    ∃ t, bytes = t ++ rest ∧ Spells (room + 1) (array items) t := by
  obtain ⟨head, rfl, hhead⟩ := exists_isHead hh
  obtain ⟨t, rfl, rfl, ht⟩ := h
  exact ⟨head ++ t, by rw [List.append_assoc], .array hhead ht⟩

theorem spells_of_openArray (hh : readHead bytes = some (4, .unbounded, after))
    (h : ∃ t, after = t ++ 0xff :: rest ∧ SpellsItems room items t) :
    ∃ t, bytes = t ++ rest ∧ Spells (room + 1) (array items) t := by
  obtain ⟨head, rfl, hhead⟩ := exists_isHead hh
  obtain ⟨t, rfl, ht⟩ := h
  exact ⟨head ++ t ++ [0xff], by simp, .openArray hhead ht⟩

theorem spells_of_map (hh : readHead bytes = some (5, .given n width, after))
    (h : ∃ t, after = t ++ rest ∧ entries.length = n ∧ SpellsEntries room entries t) :
    ∃ t, bytes = t ++ rest ∧ Spells (room + 1) (map entries) t := by
  obtain ⟨head, rfl, hhead⟩ := exists_isHead hh
  obtain ⟨t, rfl, rfl, ht⟩ := h
  exact ⟨head ++ t, by rw [List.append_assoc], .map hhead ht⟩

theorem spells_of_openMap (hh : readHead bytes = some (5, .unbounded, after))
    (h : ∃ t, after = t ++ 0xff :: rest ∧ SpellsEntries room entries t) :
    ∃ t, bytes = t ++ rest ∧ Spells (room + 1) (map entries) t := by
  obtain ⟨head, rfl, hhead⟩ := exists_isHead hh
  obtain ⟨t, rfl, ht⟩ := h
  exact ⟨head ++ t ++ [0xff], by simp, .openMap hhead ht⟩

end

mutual

-- induction on the steps; the kind in the head says which rule was used
theorem exists_spells (fuel : Nat) {room : Nat} {bytes rest : Bytes} {item : Cbor}
    (h : readItem fuel room bytes = some (item, rest)) :
    ∃ t, bytes = t ++ rest ∧ Spells room item t := by
  match fuel with
  | 0 =>
    rw [readItem] at h
    exact nomatch h
  | fuel + 1 =>
    rw [readItem] at h
    split at h
    · exact nomatch h
    · rename_i kind argument after hh
      have hkind : kind < 8 := by
        obtain ⟨b, more, _, rfl⟩ := readHead_kind hh
        have hb := b.toNat_lt
        omega
      split_ifs at h with h0 h1 h2 h3 h6 h7 h4
      · subst h0
        cases argument with
        | unbounded => exact nomatch h
        | given n width =>
          cases h
          obtain ⟨head, hbytes, hhead⟩ := exists_isHead hh
          exact ⟨head, hbytes, .natural hhead⟩
      · subst h1
        cases argument with
        | unbounded => exact nomatch h
        | given n width =>
          cases h
          obtain ⟨head, hbytes, hhead⟩ := exists_isHead hh
          exact ⟨head, hbytes, .negative hhead⟩
      · subst h2
        obtain ⟨⟨chunks, behind⟩, hs, h⟩ := Option.bind_eq_some_iff.mp h
        cases h
        obtain ⟨t, ht, hspells⟩ := exists_spellsString hh hs
        exact ⟨t, ht, .octets hspells⟩
      · subst h3
        obtain ⟨⟨chunks, behind⟩, hs, h⟩ := Option.bind_eq_some_iff.mp h
        obtain ⟨s, hj, h⟩ := Option.bind_eq_some_iff.mp h
        cases h
        obtain ⟨t, ht, hspells⟩ := exists_spellsString hh hs
        exact ⟨t, ht, .text hspells hj⟩
      · subst h6
        cases argument with
        | unbounded => exact nomatch h
        | given tag width =>
          dsimp only at h
          split at h
          · rename_i hb
            obtain ⟨⟨content, behind⟩, hc, h⟩ := Option.bind_eq_some_iff.mp h
            obtain ⟨item, hi, h⟩ := Option.bind_eq_some_iff.mp h
            cases h
            exact spells_of_integer hh hb hc hi
          · rename_i hb
            cases room with
            | zero => exact nomatch h
            | succ room =>
              obtain ⟨⟨inner, behind⟩, hi, h⟩ := Option.map_eq_some_iff.mp h
              cases h
              exact spells_of_tagged hh hb (exists_spells fuel hi)
      · subst h7
        exact spells_of_simple hh h
      · subst h4
        cases room with
        | zero => exact nomatch h
        | succ room =>
          cases argument with
          | given n width =>
            obtain ⟨⟨items, behind⟩, hi, h⟩ := Option.map_eq_some_iff.mp h
            cases h
            exact spells_of_array hh (exists_spellsItems fuel hi)
          | unbounded =>
            obtain ⟨⟨items, behind⟩, hi, h⟩ := Option.map_eq_some_iff.mp h
            cases h
            exact spells_of_openArray hh (exists_spellsOpenItems fuel hi)
      · obtain rfl : kind = 5 := by omega
        cases room with
        | zero => exact nomatch h
        | succ room =>
          cases argument with
          | given n width =>
            obtain ⟨⟨entries, behind⟩, he, h⟩ := Option.map_eq_some_iff.mp h
            cases h
            exact spells_of_map hh (exists_spellsEntries fuel he)
          | unbounded =>
            obtain ⟨⟨entries, behind⟩, he, h⟩ := Option.map_eq_some_iff.mp h
            cases h
            exact spells_of_openMap hh (exists_spellsOpenEntries fuel he)

theorem exists_spellsItems (fuel : Nat) {room n : Nat} {bytes rest : Bytes} {items : List Cbor}
    (h : readItems fuel room n bytes = some (items, rest)) :
    ∃ t, bytes = t ++ rest ∧ items.length = n ∧ SpellsItems room items t := by
  match fuel, n with
  | 0, _ =>
    rw [readItems] at h
    exact nomatch h
  | fuel + 1, 0 =>
    rw [readItems] at h
    · cases h
      exact ⟨[], rfl, rfl, .nil⟩
    · simp
  | fuel + 1, n + 1 =>
    rw [readItems] at h
    obtain ⟨⟨item, after⟩, hi, h⟩ := Option.bind_eq_some_iff.mp h
    obtain ⟨⟨items, behind⟩, hr, h⟩ := Option.bind_eq_some_iff.mp h
    cases h
    obtain ⟨t, rfl, ht⟩ := exists_spells fuel hi
    obtain ⟨more, rfl, rfl, hmore⟩ := exists_spellsItems fuel hr
    exact ⟨t ++ more, by rw [List.append_assoc], rfl, .cons ht hmore⟩

theorem exists_spellsOpenItems (fuel : Nat) {room : Nat} {bytes rest : Bytes} {items : List Cbor}
    (h : readOpenItems fuel room bytes = some (items, rest)) :
    ∃ t, bytes = t ++ 0xff :: rest ∧ SpellsItems room items t := by
  match fuel, bytes with
  | 0, _ =>
    rw [readOpenItems] at h
    exact nomatch h
  | fuel + 1, [] =>
    rw [readOpenItems] at h
    · exact nomatch h
    · simp
  | fuel + 1, b :: more =>
    rw [readOpenItems] at h
    split at h
    · rename_i hb
      cases h
      have hbreak : b = 0xff := by simpa [isBreak] using hb
      exact ⟨[], by rw [hbreak]; rfl, .nil⟩
    · obtain ⟨⟨item, after⟩, hi, h⟩ := Option.bind_eq_some_iff.mp h
      obtain ⟨⟨items, behind⟩, hr, h⟩ := Option.bind_eq_some_iff.mp h
      cases h
      obtain ⟨t, ht, hitem⟩ := exists_spells fuel hi
      obtain ⟨inner, rfl, hinner⟩ := exists_spellsOpenItems fuel hr
      exact ⟨t ++ inner, by rw [ht, List.append_assoc], .cons hitem hinner⟩

theorem exists_spellsEntries (fuel : Nat) {room n : Nat} {bytes rest : Bytes}
    {entries : List (Cbor × Cbor)} (h : readEntries fuel room n bytes = some (entries, rest)) :
    ∃ t, bytes = t ++ rest ∧ entries.length = n ∧ SpellsEntries room entries t := by
  match fuel, n with
  | 0, _ =>
    rw [readEntries] at h
    exact nomatch h
  | fuel + 1, 0 =>
    rw [readEntries] at h
    · cases h
      exact ⟨[], rfl, rfl, .nil⟩
    · simp
  | fuel + 1, n + 1 =>
    rw [readEntries] at h
    obtain ⟨⟨key, named⟩, hk, h⟩ := Option.bind_eq_some_iff.mp h
    obtain ⟨⟨item, after⟩, hi, h⟩ := Option.bind_eq_some_iff.mp h
    obtain ⟨⟨entries, behind⟩, hr, h⟩ := Option.bind_eq_some_iff.mp h
    cases h
    obtain ⟨k, rfl, hkey⟩ := exists_spells fuel hk
    obtain ⟨t, rfl, hitem⟩ := exists_spells fuel hi
    obtain ⟨more, rfl, rfl, hmore⟩ := exists_spellsEntries fuel hr
    exact ⟨k ++ t ++ more, by simp only [List.append_assoc], rfl, .cons hkey hitem hmore⟩

theorem exists_spellsOpenEntries (fuel : Nat) {room : Nat} {bytes rest : Bytes}
    {entries : List (Cbor × Cbor)} (h : readOpenEntries fuel room bytes = some (entries, rest)) :
    ∃ t, bytes = t ++ 0xff :: rest ∧ SpellsEntries room entries t := by
  match fuel, bytes with
  | 0, _ =>
    rw [readOpenEntries] at h
    exact nomatch h
  | fuel + 1, [] =>
    rw [readOpenEntries] at h
    · exact nomatch h
    · simp
  | fuel + 1, b :: more =>
    rw [readOpenEntries] at h
    split at h
    · rename_i hb
      cases h
      have hbreak : b = 0xff := by simpa [isBreak] using hb
      exact ⟨[], by rw [hbreak]; rfl, .nil⟩
    · obtain ⟨⟨key, named⟩, hk, h⟩ := Option.bind_eq_some_iff.mp h
      obtain ⟨⟨item, after⟩, hi, h⟩ := Option.bind_eq_some_iff.mp h
      obtain ⟨⟨entries, behind⟩, hr, h⟩ := Option.bind_eq_some_iff.mp h
      cases h
      obtain ⟨k, hfirst, hkey⟩ := exists_spells fuel hk
      obtain ⟨t, rfl, hitem⟩ := exists_spells fuel hi
      obtain ⟨inner, rfl, hinner⟩ := exists_spellsOpenEntries fuel hr
      exact ⟨k ++ t ++ inner, by simp only [hfirst, List.append_assoc], .cons hkey hitem hinner⟩

end

/-- What is read from bytes is what their front spells. -/
theorem read?_eq_some_iff {item : Cbor} :
    read? bytes = some item ↔ ∃ t rest, bytes = t ++ rest ∧ Spells 256 item t := by
  constructor
  · intro h
    obtain ⟨⟨_, rest⟩, hread, rfl⟩ := Option.map_eq_some_iff.mp h
    obtain ⟨t, hbytes, ht⟩ := exists_spells _ hread
    exact ⟨t, rest, hbytes, ht⟩
  · rintro ⟨t, rest, rfl, ht⟩
    have hlength : (t ++ rest).length = t.length + rest.length := List.length_append
    have hread := ht.readItem (show _ ≤ 2 * (t ++ rest).length + 2 by omega) rest
    rw [read?, hread]
    rfl

theorem read?_append {item : Cbor} (h : read? bytes = some item) (more : Bytes) :
    read? (bytes ++ more) = some item := by
  obtain ⟨t, rest, rfl, ht⟩ := read?_eq_some_iff.mp h
  exact read?_eq_some_iff.mpr ⟨t, rest ++ more, List.append_assoc .., ht⟩

/-- Before its last byte, the spelling of an item is the spelling of nothing. -/
theorem Spells.read?_front {item : Cbor} {t front : Bytes} (h : Spells 256 item t)
    (hf : front <+: t) (hne : front ≠ t) : Cbor.read? front = none := by
  obtain ⟨back, rfl⟩ := hf
  cases hr : Cbor.read? front with
  | none => rfl
  | some other =>
    obtain ⟨u, rest, rfl, hu⟩ := read?_eq_some_iff.mp hr
    have hsame : u ++ rest ++ back ++ [] = u ++ (rest ++ back) := by simp
    obtain ⟨_, hu⟩ := h.eq_of_append hu hsame
    have hrest : rest = [] ∧ back = [] := by simpa using hu
    exact absurd (by simp [hrest.2]) hne

end Countersign.Cbor
