import Countersign.Proofs.Json.RoundTrip

/-! Values on one line. What is written without blanks spells the value, and holds no control
character, whatever the texts in the value hold: it is never broken into lines. -/

namespace Countersign.Json

/-! ### Spelling -/

mutual

theorem spells_compact (j : Json) (h : j.isPlain = true) : Spells j (compact j) := by
  match j with
  | null => exact .null
  | bool true => exact .true
  | bool false => exact .false
  | natural n => exact .natural n
  | number _ => simp [isPlain] at h
  | text bytes => exact .text bytes
  | array [] => exact .noItems
  | array (j :: rest) =>
    exact .array isBlank_nil (spellsItems_compact (j :: rest) h (List.cons_ne_nil j rest))
  | object [] => exact .noEntries
  | object (e :: rest) =>
    exact .object isBlank_nil (spellsEntries_compact (e :: rest) h (List.cons_ne_nil e rest))

theorem spellsItems_compact (items : List Json) (h : isPlainItems items = true) (hne : items ≠ []) :
    SpellsItems items (compactItems items) := by
  match items with
  | [] => exact absurd rfl hne
  | [j] =>
    have hj := spells_compact j (by simpa [isPlainItems] using h)
    simpa [compactItems] using SpellsItems.last hj isBlank_nil
  | j :: k :: rest =>
    simp only [isPlainItems, Bool.and_eq_true] at h
    have hj := spells_compact j h.1
    have hrest := spellsItems_compact (k :: rest) (by simpa [isPlainItems] using h.2)
      (List.cons_ne_nil k rest)
    simpa [compactItems] using SpellsItems.more hj isBlank_nil isBlank_nil hrest

theorem spellsEntries_compact (entries : List (Bytes × Json)) (h : isPlainEntries entries = true)
    (hne : entries ≠ []) : SpellsEntries entries (compactEntries entries) := by
  match entries with
  | [] => exact absurd rfl hne
  | [(name, j)] =>
    have hj := spells_compact j (by simpa [isPlainEntries] using h)
    have hlast : SpellsEntries [(name, j)] (quote name ++ 0x3a :: [] ++ compact j ++ []) :=
      .last isBlank_nil hj isBlank_nil
    simpa [compactEntries] using hlast
  | (name, j) :: e :: rest =>
    simp only [isPlainEntries, Bool.and_eq_true] at h
    have hj := spells_compact j h.1
    have hrest := spellsEntries_compact (e :: rest) (by simpa [isPlainEntries] using h.2)
      (List.cons_ne_nil e rest)
    have hmore : SpellsEntries ((name, j) :: e :: rest) (quote name ++ 0x3a :: [] ++ compact j ++
        [] ++ 0x2c :: [] ++ compactEntries (e :: rest)) :=
      .more isBlank_nil hj isBlank_nil isBlank_nil hrest
    simpa [compactEntries] using hmore

end

/-! ### No control characters -/

def IsPrintable (bytes : Bytes) : Prop := ∀ b ∈ bytes, 0x20 ≤ b

theorem isPrintable_nil : IsPrintable [] := fun _ h => nomatch h

theorem IsPrintable.cons {b : UInt8} {bytes : Bytes} (hb : 0x20 ≤ b) (h : IsPrintable bytes) :
    IsPrintable (b :: bytes) := List.forall_mem_cons.mpr ⟨hb, h⟩

theorem IsPrintable.append {a b : Bytes} (ha : IsPrintable a) (hb : IsPrintable b) :
    IsPrintable (a ++ b) := List.forall_mem_append.mpr ⟨ha, hb⟩

theorem IsPrintable.newline_not_mem {bytes : Bytes} (h : IsPrintable bytes) : 0x0a ∉ bytes :=
  fun hm => absurd (h 0x0a hm) (by decide)

theorem isPrintable_quote (bytes : Bytes) : IsPrintable (quote bytes) := by
  have hinner : IsPrintable (bytes.flatMap escape) := by
    intro c hc
    obtain ⟨b, _, hb⟩ := List.mem_flatMap.mp hc
    exact (bounds_of_mem_escape hb).1
  exact .append (.cons (by decide) hinner) (.cons (by decide) isPrintable_nil)

theorem isPrintable_numeral (n : Nat) : IsPrintable (numeral n) := by
  intro b hb
  have hd := isDigit_of_mem_numeral hb
  simp only [isDigit, Bool.and_eq_true, decide_eq_true_eq] at hd
  exact UInt8.le_trans (by decide) hd.1

mutual

theorem isPrintable_compact (j : Json) (h : j.isPlain = true) : IsPrintable (compact j) := by
  match j with
  | null => exact fun b hb => (by decide +kernel : ∀ b ∈ ascii "null", 0x20 ≤ b) b hb
  | bool true => exact fun b hb => (by decide +kernel : ∀ b ∈ ascii "true", 0x20 ≤ b) b hb
  | bool false => exact fun b hb => (by decide +kernel : ∀ b ∈ ascii "false", 0x20 ≤ b) b hb
  | natural n => exact isPrintable_numeral n
  | number _ => simp [isPlain] at h
  | text bytes => exact isPrintable_quote bytes
  | array items =>
    have hitems := isPrintable_compactItems items (by simpa [isPlain] using h)
    exact .append (.cons (by decide) hitems) (.cons (by decide) isPrintable_nil)
  | object entries =>
    have hentries := isPrintable_compactEntries entries (by simpa [isPlain] using h)
    exact .append (.cons (by decide) hentries) (.cons (by decide) isPrintable_nil)

theorem isPrintable_compactItems (items : List Json) (h : isPlainItems items = true) :
    IsPrintable (compactItems items) := by
  match items with
  | [] => exact isPrintable_nil
  | [j] => exact isPrintable_compact j (by simpa [isPlainItems] using h)
  | j :: k :: rest =>
    simp only [isPlainItems, Bool.and_eq_true] at h
    have hj := isPrintable_compact j h.1
    have hrest := isPrintable_compactItems (k :: rest) (by simpa [isPlainItems] using h.2)
    exact hj.append (.cons (by decide) hrest)

theorem isPrintable_compactEntries (entries : List (Bytes × Json))
    (h : isPlainEntries entries = true) : IsPrintable (compactEntries entries) := by
  match entries with
  | [] => exact isPrintable_nil
  | [(name, j)] =>
    have hj := isPrintable_compact j (by simpa [isPlainEntries] using h)
    exact (isPrintable_quote name).append (.cons (by decide) hj)
  | (name, j) :: e :: rest =>
    simp only [isPlainEntries, Bool.and_eq_true] at h
    have hj := isPrintable_compact j h.1
    have hrest := isPrintable_compactEntries (e :: rest) (by simpa [isPlainEntries] using h.2)
    have hfirst : IsPrintable (quote name ++ 0x3a :: compact j) :=
      (isPrintable_quote name).append (.cons (by decide) hj)
    exact hfirst.append (.cons (by decide) hrest)

end

end Countersign.Json
