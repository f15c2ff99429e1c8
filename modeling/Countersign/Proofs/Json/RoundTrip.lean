import Countersign.Json.Record
import Countersign.Json.Tagged
import Countersign.Proofs.Json.Spelling
import Countersign.Proofs.Text.Trim

/-! A value that is written comes back when it is read, and is written as well-formed text if it
holds nothing else. Numbers are left to themselves where they are not written as digits alone. -/

namespace Countersign.Json

mutual

/-- Whether each number in the value is written as digits alone. -/
def isPlain : Json → Bool
  | number _ => false
  | array items => isPlainItems items
  | object entries => isPlainEntries entries
  | _ => true

def isPlainItems : List Json → Bool
  | [] => true
  | j :: rest => isPlain j && isPlainItems rest

def isPlainEntries : List (Bytes × Json) → Bool
  | [] => true
  | (_, j) :: rest => isPlain j && isPlainEntries rest

end

@[simp]
theorem string?_string (s : String) : (string s).string? = some s := Text.ofUtf8?_utf8 s

@[simp]
theorem nullable?_string (s : String) : nullable? string? (string s) = some (some s) :=
  congrArg (Option.map some) (string?_string s)

theorem legible_string (s : String) : (string s).legible = true := by
  simp [string, legible, Text.ofUtf8?_utf8]

theorem isBlank_newLine (level : Nat) : IsBlank (newLine level) := by
  intro b hb
  rcases List.mem_cons.mp hb with rfl | hb
  · decide
  · rw [List.eq_of_mem_replicate hb]
    decide

mutual

theorem spells_pretty (level : Nat) (j : Json) (h : j.isPlain = true) :
    Spells j (pretty level j) := by
  match j with
  | null => exact .null
  | bool true => exact .true
  | bool false => exact .false
  | natural n => exact .natural n
  | number _ => simp [isPlain] at h
  | text bytes => exact .text bytes
  | array [] => exact .noItems
  | array (j :: rest) =>
    obtain ⟨inner, heq, hs⟩ := spellsItems_pretty (level + 1) (j :: rest) (newLine level)
      (by simpa [isPlain] using h) (List.cons_ne_nil j rest) (isBlank_newLine level)
    have hall := Spells.array (isBlank_newLine (level + 1)) hs
    rw [List.cons_append, ← heq] at hall
    simpa [pretty] using hall
  | object [] => exact .noEntries
  | object (e :: rest) =>
    obtain ⟨inner, heq, hs⟩ := spellsEntries_pretty (level + 1) (e :: rest) (newLine level)
      (by simpa [isPlain] using h) (List.cons_ne_nil e rest) (isBlank_newLine level)
    have hall := Spells.object (isBlank_newLine (level + 1)) hs
    rw [List.cons_append, ← heq] at hall
    simpa [pretty] using hall

theorem spellsItems_pretty (level : Nat) (items : List Json) (after : Bytes)
    (h : isPlainItems items = true) (hne : items ≠ []) (ha : IsBlank after) :
    ∃ inner, prettyItems level items ++ after = newLine level ++ inner ∧
      SpellsItems items inner := by
  match items with
  | [] => exact absurd rfl hne
  | [j] =>
    have hj := spells_pretty level j (by simpa [isPlainItems] using h)
    exact ⟨_, by simp [prettyItems], .last hj ha⟩
  | j :: k :: rest =>
    simp only [isPlainItems, Bool.and_eq_true] at h
    have hj := spells_pretty level j h.1
    obtain ⟨inner, heq, hs⟩ := spellsItems_pretty level (k :: rest) after
      (by simpa [isPlainItems] using h.2) (List.cons_ne_nil k rest) ha
    exact ⟨_, by simp [prettyItems, heq], .more hj isBlank_nil (isBlank_newLine level) hs⟩

theorem spellsEntries_pretty (level : Nat) (entries : List (Bytes × Json)) (after : Bytes)
    (h : isPlainEntries entries = true) (hne : entries ≠ []) (ha : IsBlank after) :
    ∃ inner, prettyEntries level entries ++ after = newLine level ++ inner ∧
      SpellsEntries entries inner := by
  have hspace : IsBlank [0x20] := by simp [IsBlank, isSpace]
  match entries with
  | [] => exact absurd rfl hne
  | [(name, j)] =>
    have hj := spells_pretty level j (by simpa [isPlainEntries] using h)
    exact ⟨_, by simp [prettyEntries], .last hspace hj ha⟩
  | (name, j) :: e :: rest =>
    simp only [isPlainEntries, Bool.and_eq_true] at h
    have hj := spells_pretty level j h.1
    obtain ⟨inner, heq, hs⟩ := spellsEntries_pretty level (e :: rest) after
      (by simpa [isPlainEntries] using h.2) (List.cons_ne_nil e rest) ha
    exact ⟨_, by simp [prettyEntries, heq], .more hspace hj isBlank_nil (isBlank_newLine level) hs⟩

end

/-! ### Well-formed text -/

theorem IsBlank.isEncoded {bytes : Bytes} (h : IsBlank bytes) : Text.IsEncoded bytes := by
  apply isEncoded_of_ascii
  intro b hb
  have hs := h b hb
  simp only [isSpace, Bool.or_eq_true, beq_iff_eq] at hs
  rcases hs with ((rfl | rfl) | rfl) | rfl <;> decide

theorem isEncoded_numeral (n : Nat) : Text.IsEncoded (numeral n) := by
  apply isEncoded_of_ascii
  intro b hb
  have hd := isDigit_of_mem_numeral hb
  simp only [isDigit, Bool.and_eq_true, decide_eq_true_eq, UInt8.le_iff_toNat_le] at hd
  have hhigh : b.toNat ≤ 57 := hd.2
  omega

mutual

theorem Spells.isEncoded {j : Json} {t : Bytes} (h : Spells j t) (hl : j.legible = Bool.true) :
    Text.IsEncoded t := by
  match h with
  | .null => exact isEncoded_ascii "null"
  | .true => exact isEncoded_ascii "true"
  | .false => exact isEncoded_ascii "false"
  | .natural n => exact isEncoded_numeral n
  | .text bytes => exact isEncoded_quote (Text.isEncoded_of_ofUtf8? (by simpa [legible] using hl))
  | .noItems => exact isEncoded_of_ascii (by decide +kernel)
  | .noEntries => exact isEncoded_of_ascii (by decide +kernel)
  | @Spells.array items before inner hb hi =>
    have hin := hi.isEncoded (by simpa [legible] using hl)
    have hopen : Text.IsEncoded [0x5b] := Text.isEncoded_ascii (by decide)
    have hclose := Text.isEncoded_ascii (b := 0x5d) (by decide)
    exact ((hopen.append hb.isEncoded).append hin).append hclose
  | @Spells.object entries before inner hb he =>
    have hin := he.isEncoded (by simpa [legible] using hl)
    have hopen : Text.IsEncoded [0x7b] := Text.isEncoded_ascii (by decide)
    have hclose := Text.isEncoded_ascii (b := 0x7d) (by decide)
    exact ((hopen.append hb.isEncoded).append hin).append hclose

theorem SpellsItems.isEncoded {items : List Json} {t : Bytes} (h : SpellsItems items t)
    (hl : legibleItems items = Bool.true) : Text.IsEncoded t := by
  match h with
  | @SpellsItems.last j t after h ha =>
    simp only [legibleItems, Bool.and_eq_true] at hl
    exact (h.isEncoded hl.1).append ha.isEncoded
  | @SpellsItems.more j items t after before inner h ha hb hi =>
    simp only [legibleItems, Bool.and_eq_true] at hl
    have hcomma : Text.IsEncoded [0x2c] := Text.isEncoded_ascii (by decide)
    have hrest := (hcomma.append hb.isEncoded).append (hi.isEncoded hl.2)
    have hall := ((h.isEncoded hl.1).append ha.isEncoded).append hrest
    simpa using hall

theorem SpellsEntries.isEncoded {entries : List (Bytes × Json)} {t : Bytes}
    (h : SpellsEntries entries t) (hl : legibleEntries entries = Bool.true) :
    Text.IsEncoded t := by
  have hcolon : Text.IsEncoded [0x3a] := Text.isEncoded_ascii (by decide)
  match h with
  | @SpellsEntries.last name j between t after hn h ha =>
    simp only [legibleEntries, Bool.and_eq_true] at hl
    have hname := isEncoded_quote (Text.isEncoded_of_ofUtf8? hl.1.1)
    have hall := (((hname.append hcolon).append hn.isEncoded).append
      (h.isEncoded hl.1.2)).append ha.isEncoded
    simpa using hall
  | @SpellsEntries.more name j entries between t after before inner hn h ha hb hi =>
    simp only [legibleEntries, Bool.and_eq_true] at hl
    have hname := isEncoded_quote (Text.isEncoded_of_ofUtf8? hl.1.1)
    have hcomma : Text.IsEncoded [0x2c] := Text.isEncoded_ascii (by decide)
    have hrest := (hcomma.append hb.isEncoded).append (hi.isEncoded hl.2)
    have hall := ((((hname.append hcolon).append hn.isEncoded).append
      (h.isEncoded hl.1.2)).append ha.isEncoded).append hrest
    simpa using hall

end

/-- Lines that are written for a legible value are a text, and the value is what it says. -/
theorem exists_text_pretty (level : Nat) {j : Json} (hp : j.isPlain = true)
    (hl : j.legible = true) :
    ∃ s, Text.ofUtf8? (pretty level j) = some s ∧ Text.utf8 s = pretty level j ∧
      read? (Text.utf8 s) = some j := by
  have hs := spells_pretty level j hp
  obtain ⟨s, hof, hutf⟩ := Text.exists_of_isEncoded (hs.isEncoded hl)
  exact ⟨s, hof, hutf, by rw [hutf]; exact hs.read?⟩

/-! ### Lists of values that are written alike -/

theorem isPlainItems_map {α : Type} {write : α → Json} (h : ∀ a, (write a).isPlain = true)
    (values : List α) : isPlainItems (values.map write) = true := by
  induction values with
  | nil => rfl
  | cons a rest ih => simp [isPlainItems, h a, ih]

theorem legibleItems_map {α : Type} {write : α → Json} (h : ∀ a, (write a).legible = true)
    (values : List α) : legibleItems (values.map write) = true := by
  induction values with
  | nil => rfl
  | cons a rest ih => simp [legibleItems, h a, ih]

theorem depthItems_map {α : Type} {write : α → Json} {n : Nat} (h : ∀ a, (write a).depth ≤ n)
    (values : List α) : depthItems (values.map write) ≤ n := by
  induction values with
  | nil => simp [depthItems]
  | cons a rest ih => exact Nat.max_le.mpr ⟨h a, ih⟩

theorem untaggedItems?_map {α : Type} {write : α → Json}
    (h : ∀ a, (write a).untagged? = some (write a)) (values : List α) :
    untaggedItems? (values.map write) = some (values.map write) := by
  induction values with
  | nil => rfl
  | cons a rest ih => simp [untaggedItems?, h a, ih]

theorem isPlain_object {fields : List (String × Json)} (h : ∀ e ∈ fields, e.2.isPlain = true) :
    (object (fields.map fun e => (Text.utf8 e.1, e.2))).isPlain = true := by
  rw [isPlain]
  induction fields with
  | nil => rfl
  | cons e rest ih =>
    have hrest := ih fun f hf => h f (List.mem_cons_of_mem _ hf)
    simp [isPlainEntries, h e List.mem_cons_self, hrest]

theorem legible_object {fields : List (String × Json)} (h : ∀ e ∈ fields, e.2.legible = true) :
    (object (fields.map fun e => (Text.utf8 e.1, e.2))).legible = true := by
  rw [legible]
  induction fields with
  | nil => rfl
  | cons e rest ih =>
    have hrest := ih fun f hf => h f (List.mem_cons_of_mem _ hf)
    simp [legibleEntries, Text.ofUtf8?_utf8, h e List.mem_cons_self, hrest]

/-! ### Blank texts -/

/-- A byte at which no value starts. -/
def startsNothing (b : UInt8) : Bool := b == 0x0b || b == 0x0c || 0x80 ≤ b

theorem isSpace_or_startsNothing {c : Char} (h : Text.isBlank c = true) {b : UInt8}
    (hb : b ∈ String.utf8EncodeChar c) : isSpace b = true ∨ startsNothing b = true := by
  by_cases hc : c.toNat < 128
  · rw [Text.utf8EncodeChar_of_ascii hc, List.mem_singleton] at hb
    have hall : ∀ n < 128, Text.isBlank (Char.ofNat n) = true →
        isSpace (UInt8.ofNat n) = true ∨ startsNothing (UInt8.ofNat n) = true := by decide +kernel
    have hn := hall c.toNat hc
    rw [Char.ofNat_toNat] at hn
    rw [hb]
    exact hn h
  · have hle := Text.le_of_mem_utf8EncodeChar hc hb
    have hhigh : 0x80 ≤ b := UInt8.le_iff_toNat_le.mpr hle
    exact .inr (by simp [startsNothing, hhigh])

theorem readValue_of_startsNothing {fuel : Nat} {bytes rest : Bytes} {b : UInt8}
    (hs : skipSpace bytes = b :: rest) (hb : startsNothing b = true) :
    readValue fuel bytes = none := by
  cases fuel with
  | zero => simp only [readValue]
  | succ fuel =>
    have hmark : ∀ n < 256, startsNothing (UInt8.ofNat n) = true →
        UInt8.ofNat n ≠ 0x22 ∧ UInt8.ofNat n ≠ 0x5b ∧ UInt8.ofNat n ≠ 0x7b ∧ UInt8.ofNat n ≠ 0x2d ∧
        isDigit (UInt8.ofNat n) = false ∧ UInt8.ofNat n ≠ 0x6e ∧ UInt8.ofNat n ≠ 0x74 ∧
        UInt8.ofNat n ≠ 0x66 := by decide +kernel
    have hn := hmark b.toNat b.toNat_lt
    rw [UInt8.ofNat_toNat] at hn
    obtain ⟨h1, h2, h3, h4, h5, h6, h7, h8⟩ := hn hb
    simp [readValue, hs, h5, h6, h7, h8]

theorem read?_of_blank {s : String} (h : Text.trim s.toList = []) : read? (Text.utf8 s) = none := by
  have hall : ∀ b ∈ Text.utf8 s, isSpace b = true ∨ startsNothing b = true := by
    intro b hb
    rw [Text.utf8_eq_flatMap] at hb
    obtain ⟨c, hc, hbc⟩ := List.mem_flatMap.mp hb
    exact isSpace_or_startsNothing ((Text.trim_eq_nil_iff.mp h) c hc) hbc
  have hnone : readValue (steps (Text.utf8 s)) (Text.utf8 s) = none := by
    cases hs : skipSpace (Text.utf8 s) with
    | nil => simp [steps, readValue, hs]
    | cons b rest =>
      have hmem : b ∈ Text.utf8 s := by
        have hsub : b ∈ skipSpace (Text.utf8 s) := by simp [hs]
        exact List.dropWhile_subset _ hsub
      have hspace : isSpace b = false := by
        have hhead := List.head?_dropWhile_not isSpace (Text.utf8 s)
        rw [show (Text.utf8 s).dropWhile isSpace = b :: rest from hs] at hhead
        simpa using hhead
      have hb : startsNothing b = true := by simpa [hspace] using hall b hmem
      exact readValue_of_startsNothing hs hb
  simp [read?, hnone]

end Countersign.Json
