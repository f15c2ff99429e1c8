import Countersign.Proofs.Json.Quotation
import Countersign.Proofs.Text.Numeral

/-! Spellings of a value: its text, with blanks wherever they may stand. Every spelling is read as
the value, and both ways of writing a value spell it. -/

namespace Countersign.Json

def IsBlank (bytes : Bytes) : Prop := ∀ b ∈ bytes, isSpace b = true

mutual

inductive Spells : Json → Bytes → Prop where
  | null : Spells null (ascii "null")
  | true : Spells (bool true) (ascii "true")
  | false : Spells (bool false) (ascii "false")
  | natural (n : Nat) : Spells (natural n) (numeral n)
  | text (bytes : Bytes) : Spells (text bytes) (quote bytes)
  | noItems : Spells (array []) [0x5b, 0x5d]
  | array {items : List Json} {before inner : Bytes} (hb : IsBlank before)
      (h : SpellsItems items inner) : Spells (array items) (0x5b :: before ++ inner ++ [0x5d])
  | noEntries : Spells (object []) [0x7b, 0x7d]
  | object {entries : List (Bytes × Json)} {before inner : Bytes} (hb : IsBlank before)
      (h : SpellsEntries entries inner) :
      Spells (object entries) (0x7b :: before ++ inner ++ [0x7d])

inductive SpellsItems : List Json → Bytes → Prop where
  | last {j : Json} {t after : Bytes} (h : Spells j t) (ha : IsBlank after) :
      SpellsItems [j] (t ++ after)
  | more {j : Json} {items : List Json} {t after before inner : Bytes} (h : Spells j t)
      (ha : IsBlank after) (hb : IsBlank before) (hi : SpellsItems items inner) :
      SpellsItems (j :: items) (t ++ after ++ 0x2c :: before ++ inner)

inductive SpellsEntries : List (Bytes × Json) → Bytes → Prop where
  | last {name : Bytes} {j : Json} {between t after : Bytes} (hn : IsBlank between)
      (h : Spells j t) (ha : IsBlank after) :
      SpellsEntries [(name, j)] (quote name ++ 0x3a :: between ++ t ++ after)
  | more {name : Bytes} {j : Json} {entries : List (Bytes × Json)}
      {between t after before inner : Bytes} (hn : IsBlank between) (h : Spells j t)
      (ha : IsBlank after) (hb : IsBlank before) (hi : SpellsEntries entries inner) :
      SpellsEntries ((name, j) :: entries)
        (quote name ++ 0x3a :: between ++ t ++ after ++ 0x2c :: before ++ inner)

end

/-! ### Blanks -/

theorem isBlank_nil : IsBlank [] := fun _ h => absurd h List.not_mem_nil

theorem skipSpace_append {before : Bytes} (h : IsBlank before) (bytes : Bytes) :
    skipSpace (before ++ bytes) = skipSpace bytes := by
  induction before with
  | nil => rfl
  | cons b before ih =>
    have hb := h b List.mem_cons_self
    rw [← ih fun c hc => h c (List.mem_cons_of_mem _ hc)]
    simp [skipSpace, hb]

theorem skipSpace_cons {b : UInt8} (h : isSpace b = false) (bytes : Bytes) :
    skipSpace (b :: bytes) = b :: bytes := by
  simp [skipSpace, h]

/-! ### Numerals -/

/-- Whether a number that stands in front of these bytes ends there. -/
def EndsNumber (rest : Bytes) : Prop :=
  ∀ b ∈ rest.head?, isDigit b = false ∧ b ≠ 0x2e ∧ b ≠ 0x65 ∧ b ≠ 0x45

theorem endsNumber_cons {b : UInt8} (h : isSpace b = true ∨ b = 0x2c ∨ b = 0x5d ∨ b = 0x7d)
    (rest : Bytes) : EndsNumber (b :: rest) := by
  intro c hc
  obtain rfl : b = c := by simpa using hc
  rcases h with h | rfl | rfl | rfl
  · simp only [isSpace, Bool.or_eq_true, beq_iff_eq] at h
    rcases h with ((rfl | rfl) | rfl) | rfl <;> decide
  all_goals decide

theorem endsNumber_append {after rest : Bytes} (ha : IsBlank after) (h : EndsNumber rest) :
    EndsNumber (after ++ rest) := by
  cases after with
  | nil => exact h
  | cons b after => exact endsNumber_cons (.inl (ha b List.mem_cons_self)) (after ++ rest)

theorem digit_of_isDecimal {c : Char} (h : Text.isDecimal c = true) :
    isDigit c.toUInt8 = true ∧ c.toUInt8.toNat = c.toNat := by
  have hc : '0' ≤ c ∧ c ≤ '9' := by simpa [Text.isDecimal] using h
  have hlow : 48 ≤ c.toNat := hc.1
  have hhigh : c.toNat ≤ 57 := hc.2
  have hn : c.toUInt8.toNat = c.toNat := by
    show c.val.toNat % 256 = c.toNat
    rw [Char.toNat_val]
    omega
  refine ⟨?_, hn⟩
  simp only [isDigit, Bool.and_eq_true, decide_eq_true_eq, UInt8.le_iff_toNat_le, hn]
  exact ⟨hlow, hhigh⟩

theorem isDigit_of_mem_numeral {n : Nat} {b : UInt8} (h : b ∈ numeral n) : isDigit b = true := by
  obtain ⟨c, hc, rfl⟩ := List.mem_map.mp h
  exact (digit_of_isDecimal (Text.isDecimal_of_mem_decimal hc)).1

theorem numeral_ne_nil (n : Nat) : numeral n ≠ [] := by
  simp [numeral, Text.decimal_ne_nil]

theorem digitsOf_of_head {digits rest : Bytes} (hd : ∀ b ∈ digits, isDigit b = true)
    (h : ∀ b ∈ rest.head?, isDigit b = false) : digitsOf (digits ++ rest) = (digits, rest) := by
  have hr : rest.takeWhile isDigit = [] ∧ rest.dropWhile isDigit = rest := by
    cases rest with
    | nil => exact ⟨rfl, rfl⟩
    | cons b rest =>
      have hb := h b rfl
      simp [hb]
  rw [digitsOf, List.takeWhile_append_of_pos hd, List.dropWhile_append_of_pos hd, hr.1, hr.2,
    List.append_nil]

theorem digitsOf_append {digits rest : Bytes} (hd : ∀ b ∈ digits, isDigit b = true)
    (h : EndsNumber rest) : digitsOf (digits ++ rest) = (digits, rest) :=
  digitsOf_of_head hd fun b hb => (h b hb).1

theorem valueOf_map {s : List Char} (h : ∀ c ∈ s, Text.isDecimal c = true) (n : Nat) :
    (s.map Char.toUInt8).foldl (fun n b => 10 * n + (b.toNat - 0x30)) n = Text.decimalFrom n s := by
  induction s generalizing n with
  | nil => rw [Text.decimalFrom_nil, List.map_nil, List.foldl_nil]
  | cons c s ih =>
    have hc := (digit_of_isDecimal (h c List.mem_cons_self)).2
    rw [Text.decimalFrom_cons, List.map_cons, List.foldl_cons, hc,
      ih fun d hd => h d (List.mem_cons_of_mem _ hd)]
    rfl

theorem valueOf_numeral (n : Nat) : valueOf (numeral n) = n := by
  rw [valueOf, numeral, valueOf_map fun c hc => Text.isDecimal_of_mem_decimal hc,
    Text.decimalFrom_decimal]

theorem readFraction_of_ends {rest : Bytes} (h : EndsNumber rest) :
    readFraction rest = some ([], rest) := by
  cases rest with
  | nil => rfl
  | cons b rest =>
    have hb := (h b rfl).2.1
    rw [readFraction]
    intro digits hd
    exact hb (List.cons.inj hd).1

theorem readExponent_of_ends {rest : Bytes} (h : EndsNumber rest) :
    readExponent rest = some ([], rest) := by
  cases rest with
  | nil => rfl
  | cons b rest =>
    obtain ⟨_, _, hsmall, hlarge⟩ := h b rfl
    simp [readExponent, hsmall, hlarge]

theorem readUnsigned_numeral {n : Nat} {rest : Bytes} (h : EndsNumber rest) :
    readUnsigned Bool.false (numeral n ++ rest) = some (natural n, rest) := by
  have hzero : ¬ ((numeral n).isEmpty = Bool.true ∨
      ((numeral n).head? = some 0x30 ∧ (numeral n).length ≠ 1)) := by
    rintro (he | ⟨hh, hl⟩)
    · exact numeral_ne_nil n (List.isEmpty_iff.mp he)
    · apply hl
      rw [numeral, List.head?_map] at hh
      obtain ⟨c, hc, hbyte⟩ := Option.map_eq_some_iff.mp hh
      have hmem : c ∈ Text.decimal n := List.mem_of_head? hc
      have hn := (digit_of_isDecimal (Text.isDecimal_of_mem_decimal hmem)).2
      rw [hbyte] at hn
      have hch : c = '0' := Char.toNat_inj.mp hn.symm
      rw [numeral, List.length_map]
      exact Text.length_decimal_of_head (by rw [hc, hch])
  simp only [readUnsigned, digitsOf_append (fun b hb => isDigit_of_mem_numeral hb) h, if_neg hzero,
    readFraction_of_ends h, readExponent_of_ends h, Option.bind_eq_bind, Option.bind_some,
    valueOf_numeral]
  rfl

/-! ### Reading -/

/-- The first byte of a spelling tells what comes next. -/
theorem Spells.exists_first {j : Json} {t : Bytes} (h : Spells j t) :
    ∃ b rest, t = b :: rest ∧ isSpace b = Bool.false ∧ b ≠ 0x5d := by
  cases h with
  | natural n =>
    cases hn : numeral n with
    | nil => exact absurd hn (numeral_ne_nil n)
    | cons b rest =>
      have hb : isDigit b = Bool.true := isDigit_of_mem_numeral (n := n) (by simp [hn])
      refine ⟨b, rest, rfl, ?_, ?_⟩
      · by_cases hs : isSpace b = Bool.true
        · simp only [isSpace, Bool.or_eq_true, beq_iff_eq] at hs
          rcases hs with ((rfl | rfl) | rfl) | rfl <;> exact absurd hb (by decide)
        · simpa using hs
      · rintro rfl
        exact absurd hb (by decide)
  | null => exact ⟨0x6e, _, rfl, by decide, by decide⟩
  | true => exact ⟨0x74, _, rfl, by decide, by decide⟩
  | false => exact ⟨0x66, _, rfl, by decide, by decide⟩
  | text bytes => exact ⟨0x22, _, rfl, by decide, by decide⟩
  | noItems => exact ⟨0x5b, _, rfl, by decide, by decide⟩
  | array hb h => exact ⟨0x5b, _, rfl, by decide, by decide⟩
  | noEntries => exact ⟨0x7b, _, rfl, by decide, by decide⟩
  | object hb h => exact ⟨0x7b, _, rfl, by decide, by decide⟩

theorem Spells.length_pos {j : Json} {t : Bytes} (h : Spells j t) : 0 < t.length := by
  obtain ⟨b, rest, rfl, _⟩ := h.exists_first
  simp

theorem readValue_digit {fuel : Nat} {bytes rest : Bytes} {b : UInt8}
    (h : skipSpace bytes = b :: rest) (hd : isDigit b = Bool.true) :
    readValue (fuel + 1) bytes = readUnsigned Bool.false (b :: rest) := by
  have hmark : b ≠ 0x22 ∧ b ≠ 0x5b ∧ b ≠ 0x7b ∧ b ≠ 0x2d := by
    refine ⟨?_, ?_, ?_, ?_⟩ <;> (rintro rfl; exact absurd hd (by decide))
  obtain ⟨h1, h2, h3, h4⟩ := hmark
  simp only [readValue, h, hd, if_true]

theorem after?_append (word rest : Bytes) : after? word (word ++ rest) = some rest := by
  simp [after?]

theorem readValue_array {fuel : Nat} {bytes inner rest more : Bytes} {b : UInt8}
    {items : List Json} (h : skipSpace bytes = 0x5b :: inner) (hb : skipSpace inner = b :: rest)
    (hne : b ≠ 0x5d) (hi : readItems fuel (b :: rest) = some (items, more)) :
    readValue (fuel + 1) bytes = some (array items, more) := by
  simp only [readValue, h, hb]
  split
  · rename_i heq
    exact absurd (List.cons.inj heq).1 hne
  · rw [hi]
    rfl

theorem readValue_object {fuel : Nat} {bytes inner rest more : Bytes} {b : UInt8}
    {entries : List (Bytes × Json)} (h : skipSpace bytes = 0x7b :: inner)
    (hb : skipSpace inner = b :: rest) (hne : b ≠ 0x7d)
    (he : readEntries fuel (b :: rest) = some (entries, more)) :
    readValue (fuel + 1) bytes = some (object entries, more) := by
  simp only [readValue, h, hb]
  split
  · rename_i heq
    exact absurd (List.cons.inj heq).1 hne
  · rw [he]
    rfl

theorem readItems_last {fuel : Nat} {bytes rest more : Bytes} {j : Json}
    (h : readValue fuel bytes = some (j, rest)) (hr : skipSpace rest = 0x5d :: more) :
    readItems (fuel + 1) bytes = some ([j], more) := by
  simp [readItems, h, hr]

theorem readItems_more {fuel : Nat} {bytes rest next more : Bytes} {j : Json} {items : List Json}
    (h : readValue fuel bytes = some (j, rest)) (hr : skipSpace rest = 0x2c :: next)
    (hi : readItems fuel next = some (items, more)) :
    readItems (fuel + 1) bytes = some (j :: items, more) := by
  simp [readItems, h, hr, hi]

section

variable {fuel : Nat} {bytes name inner rest more : Bytes} {j : Json}
  (hn : skipSpace bytes = quote name ++ 0x3a :: inner) (h : readValue fuel inner = some (j, rest))
include hn h

theorem readEntries_last (hr : skipSpace rest = 0x7d :: more) :
    readEntries (fuel + 1) bytes = some ([(name, j)], more) := by
  have hq : quote name ++ 0x3a :: inner =
      [0x22] ++ (name.flatMap escape ++ 0x22 :: ([0x3a] ++ inner)) := by simp [quote]
  have hc : skipSpace ([0x3a] ++ inner) = [0x3a] ++ inner := skipSpace_cons (by decide) inner
  simp only [readEntries, hn, hq, after?_append, readText_quoted, hc, h, hr,
    Option.bind_eq_bind, Option.bind_some, Option.pure_def]

theorem readEntries_more {next : Bytes} {entries : List (Bytes × Json)}
    (hr : skipSpace rest = 0x2c :: next) (he : readEntries fuel next = some (entries, more)) :
    readEntries (fuel + 1) bytes = some ((name, j) :: entries, more) := by
  have hq : quote name ++ 0x3a :: inner =
      [0x22] ++ (name.flatMap escape ++ 0x22 :: ([0x3a] ++ inner)) := by simp [quote]
  have hc : skipSpace ([0x3a] ++ inner) = [0x3a] ++ inner := skipSpace_cons (by decide) inner
  simp only [readEntries, hn, hq, after?_append, readText_quoted, hc, h, hr, he,
    Option.bind_eq_bind, Option.bind_some, Option.pure_def]

end

theorem SpellsItems.exists_first {items : List Json} {t : Bytes} (h : SpellsItems items t) :
    ∃ b rest, t = b :: rest ∧ isSpace b = Bool.false ∧ b ≠ 0x5d := by
  cases h with
  | last h ha =>
    obtain ⟨b, rest, rfl, hb⟩ := h.exists_first
    exact ⟨b, _, rfl, hb⟩
  | more h ha hb hi =>
    obtain ⟨b, rest, rfl, hb⟩ := h.exists_first
    exact ⟨b, _, rfl, hb⟩

theorem SpellsEntries.exists_first {entries : List (Bytes × Json)} {t : Bytes}
    (h : SpellsEntries entries t) : ∃ rest, t = 0x22 :: rest := by
  cases h with
  | last hn h ha => exact ⟨_, rfl⟩
  | more hn h ha hb hi => exact ⟨_, rfl⟩

theorem Spells.skipSpace {j : Json} {t before : Bytes} (h : Spells j t) (hb : IsBlank before)
    (rest : Bytes) : skipSpace (before ++ t ++ rest) = t ++ rest := by
  obtain ⟨b, more, rfl, hs, _⟩ := h.exists_first
  rw [List.append_assoc, skipSpace_append hb, List.cons_append, skipSpace_cons hs]

theorem skipSpace_after {before : Bytes} {b : UInt8} (hb : IsBlank before)
    (hs : isSpace b = Bool.false) (rest : Bytes) :
    skipSpace (before ++ b :: rest) = b :: rest := by
  rw [skipSpace_append hb, skipSpace_cons hs]

mutual

/-- What is written for a value is read as that value, whatever follows it. -/
theorem Spells.readValue {j : Json} {t before rest : Bytes} {fuel : Nat} (h : Spells j t)
    (hb : IsBlank before) (hr : EndsNumber rest) (hf : 2 * t.length ≤ fuel + 1) :
    Json.readValue (fuel + 1) (before ++ t ++ rest) = some (j, rest) := by
  have hs := h.skipSpace hb rest
  -- every bracket costs two steps, and stands for two bytes of the text with its partner
  match h with
  | .null =>
    simp only [Json.readValue, hs]
    rfl
  | .true =>
    simp only [Json.readValue, hs]
    rfl
  | .false =>
    simp only [Json.readValue, hs]
    rfl
  | .natural n =>
    obtain ⟨b, more, hn⟩ := List.exists_cons_of_ne_nil (numeral_ne_nil n)
    have hd : isDigit b = Bool.true := isDigit_of_mem_numeral (n := n) (by simp [hn])
    rw [hn, List.cons_append] at hs
    rw [hn, readValue_digit hs hd, ← List.cons_append, ← hn, readUnsigned_numeral hr]
  | .text bytes =>
    have hq : quote bytes ++ rest = 0x22 :: (bytes.flatMap escape ++ 0x22 :: rest) := by
      simp [quote]
    simp only [Json.readValue, hs, hq, readText_quoted, Option.map_some]
  | .noItems =>
    simp only [Json.readValue, hs]
    rfl
  | .noEntries =>
    simp only [Json.readValue, hs]
    rfl
  | @Spells.array items space inner hin hi =>
    obtain ⟨fuel, rfl⟩ : ∃ n, fuel = n + 2 := ⟨fuel - 2, by simp at hf; omega⟩
    have hi' : Json.readItems (fuel + 2) ([] ++ inner ++ 0x5d :: rest) = some (items, rest) :=
      hi.readItems isBlank_nil (by simp at hf; omega)
    obtain ⟨b, more, rfl, hsp, hne⟩ := hi.exists_first
    refine readValue_array (hs.trans ?_) (skipSpace_after hin hsp (more ++ 0x5d :: rest)) hne hi'
    simp
  | @Spells.object entries space inner hin he =>
    obtain ⟨fuel, rfl⟩ : ∃ n, fuel = n + 2 := ⟨fuel - 2, by simp at hf; omega⟩
    have he' : Json.readEntries (fuel + 2) ([] ++ inner ++ 0x7d :: rest) = some (entries, rest) :=
      he.readEntries isBlank_nil (by simp at hf; omega)
    obtain ⟨more, rfl⟩ := he.exists_first
    refine readValue_object (hs.trans ?_)
      (skipSpace_after hin (by decide) (more ++ 0x7d :: rest)) (by decide) he'
    simp

theorem SpellsItems.readItems {items : List Json} {t before rest : Bytes} {fuel : Nat}
    (h : SpellsItems items t) (hb : IsBlank before) (hf : 2 * t.length ≤ fuel + 1) :
    Json.readItems (fuel + 2) (before ++ t ++ 0x5d :: rest) = some (items, rest) := by
  match h with
  | @SpellsItems.last j t after h ha =>
    have hv : Json.readValue (fuel + 1) (before ++ t ++ (after ++ 0x5d :: rest)) =
        some (j, after ++ 0x5d :: rest) :=
      h.readValue hb (endsNumber_append ha (endsNumber_cons (by simp) rest))
        (by simp at hf; omega)
    rw [← List.append_assoc before, List.append_assoc (before ++ t)]
    exact readItems_last hv (skipSpace_after ha (by decide) rest)
  | @SpellsItems.more j items t after space inner h ha hs hi =>
    have hpos := h.length_pos
    let next := space ++ inner ++ 0x5d :: rest
    have hv : Json.readValue (fuel + 1) (before ++ t ++ (after ++ 0x2c :: next)) =
        some (j, after ++ 0x2c :: next) :=
      h.readValue hb (endsNumber_append ha (endsNumber_cons (by simp) next))
        (by simp at hf; omega)
    obtain ⟨fuel, rfl⟩ : ∃ n, fuel = n + 1 := ⟨fuel - 1, by simp at hf; omega⟩
    have hi' : Json.readItems (fuel + 2) next = some (items, rest) :=
      hi.readItems hs (by simp at hf; omega)
    have heq : before ++ (t ++ after ++ 0x2c :: space ++ inner) ++ 0x5d :: rest =
        before ++ t ++ (after ++ 0x2c :: next) := by simp [next]
    rw [heq]
    exact readItems_more hv (skipSpace_after ha (by decide) next) hi'

theorem SpellsEntries.readEntries {entries : List (Bytes × Json)} {t before rest : Bytes}
    {fuel : Nat} (h : SpellsEntries entries t) (hb : IsBlank before)
    (hf : 2 * t.length ≤ fuel + 1) :
    Json.readEntries (fuel + 2) (before ++ t ++ 0x7d :: rest) = some (entries, rest) := by
  match h with
  | @SpellsEntries.last name j between t after hn h ha =>
    let held := between ++ t ++ (after ++ 0x7d :: rest)
    have hv : Json.readValue (fuel + 1) held = some (j, after ++ 0x7d :: rest) :=
      h.readValue hn (endsNumber_append ha (endsNumber_cons (by simp) rest))
        (by simp at hf; omega)
    have hq : Json.skipSpace (before ++ (quote name ++ 0x3a :: held)) =
        quote name ++ 0x3a :: held := skipSpace_after hb (by decide) _
    have heq : before ++ (quote name ++ 0x3a :: between ++ t ++ after) ++ 0x7d :: rest =
        before ++ (quote name ++ 0x3a :: held) := by simp [held]
    rw [heq]
    exact readEntries_last hq hv (skipSpace_after ha (by decide) rest)
  | @SpellsEntries.more name j entries between t after space inner hn h ha hs hi =>
    let next := space ++ inner ++ 0x7d :: rest
    let held := between ++ t ++ (after ++ 0x2c :: next)
    have hv : Json.readValue (fuel + 1) held = some (j, after ++ 0x2c :: next) :=
      h.readValue hn (endsNumber_append ha (endsNumber_cons (by simp) next))
        (by simp at hf; omega)
    obtain ⟨fuel, rfl⟩ : ∃ n, fuel = n + 1 := ⟨fuel - 1, by simp at hf; omega⟩
    have hi' : Json.readEntries (fuel + 2) next = some (entries, rest) :=
      hi.readEntries hs (by simp at hf; omega)
    have hq : Json.skipSpace (before ++ (quote name ++ 0x3a :: held)) =
        quote name ++ 0x3a :: held := skipSpace_after hb (by decide) _
    have heq : before ++ (quote name ++ 0x3a :: between ++ t ++ after ++ 0x2c :: space ++ inner) ++
        0x7d :: rest = before ++ (quote name ++ 0x3a :: held) := by simp [held, next]
    rw [heq]
    exact readEntries_more hq hv (skipSpace_after ha (by decide) next) hi'

end

theorem Spells.read? {j : Json} {t : Bytes} (h : Spells j t) : Json.read? t = some j := by
  have hv : Json.readValue (steps t) ([] ++ t ++ []) = some (j, []) :=
    h.readValue isBlank_nil (fun _ hb => nomatch hb) (by omega)
  simp only [List.nil_append, List.append_nil] at hv
  simp only [Json.read?, hv, Option.bind_eq_bind, Option.bind_some]
  rfl

end Countersign.Json
