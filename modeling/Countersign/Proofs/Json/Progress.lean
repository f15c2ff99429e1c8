import Countersign.Proofs.Json.Spelling

/-! What one step of a reader does, and that whatever is read leaves less than there was. -/

namespace Countersign.Json

variable {bytes rest : Bytes}

theorem length_skipSpace_le (bytes : Bytes) : (skipSpace bytes).length ≤ bytes.length :=
  (List.dropWhile_suffix isSpace).length_le

theorem length_of_skipSpace {b : UInt8} (h : skipSpace bytes = b :: rest) :
    rest.length < bytes.length := by
  have hle := length_skipSpace_le bytes
  rw [h, List.length_cons] at hle
  omega

theorem length_of_after? {word : Bytes} (hw : word ≠ []) (h : after? word bytes = some rest) :
    rest.length < bytes.length := by
  unfold after? at h
  split at h
  · obtain ⟨more, rfl⟩ := List.isPrefixOf_iff_prefix.mp ‹_›
    have hpos := List.length_pos_iff.mpr hw
    cases h
    simp only [List.length_drop, List.length_append]
    omega
  · exact nomatch h

theorem length_of_readPieces {pieces : List Piece} (h : readPieces bytes = some (pieces, rest)) :
    rest.length < bytes.length := by
  fun_induction readPieces bytes generalizing pieces with
  | case1 => exact nomatch h
  | case2 => cases h; simp
  | case3 a b c d inner ih =>
    obtain ⟨n, _, h⟩ := Option.bind_eq_some_iff.mp h
    obtain ⟨⟨more, after⟩, hr, h⟩ := Option.bind_eq_some_iff.mp h
    cases h
    have hlt := ih hr
    simp only [List.length_cons]
    omega
  | case4 e inner _ ih =>
    obtain ⟨b, _, h⟩ := Option.bind_eq_some_iff.mp h
    obtain ⟨⟨more, after⟩, hr, h⟩ := Option.bind_eq_some_iff.mp h
    cases h
    have hlt := ih hr
    simp only [List.length_cons]
    omega
  | case5 => exact nomatch h
  | case6 b inner _ _ _ _ ih =>
    obtain ⟨⟨more, after⟩, hr, h⟩ := Option.map_eq_some_iff.mp h
    cases h
    have hlt := ih hr
    simp only [List.length_cons]
    omega

theorem length_of_readText {t : Bytes} (h : readText bytes = some (t, rest)) :
    rest.length < bytes.length := by
  obtain ⟨⟨pieces, after⟩, hr, h⟩ := Option.map_eq_some_iff.mp h
  cases h
  exact length_of_readPieces hr

theorem length_dropDigits_le (bytes : Bytes) : (bytes.dropWhile isDigit).length ≤ bytes.length :=
  (List.dropWhile_suffix isDigit).length_le

theorem length_of_readFraction {digits : Bytes} (h : readFraction bytes = some (digits, rest)) :
    rest.length ≤ bytes.length := by
  unfold readFraction at h
  split at h
  · rename_i inner
    have hle := length_dropDigits_le inner
    obtain ⟨_, hd⟩ := Option.ite_none_left_eq_some.mp h
    cases hd
    exact Nat.le_succ_of_le hle
  · cases h
    exact Nat.le_refl _

theorem length_of_readExponent {digits : Bytes} (h : readExponent bytes = some (digits, rest)) :
    rest.length ≤ bytes.length := by
  unfold readExponent at h
  split at h
  · rename_i e inner
    split at h
    · obtain ⟨_, hd⟩ := Option.ite_none_left_eq_some.mp h
      cases hd
      refine Nat.le_trans (length_dropDigits_le _) ?_
      split <;> simp only [List.length_cons] <;> omega
    · cases h
      exact Nat.le_refl _
  · cases h
    exact Nat.le_refl _

theorem of_readUnsigned {negative : Bool} {j : Json}
    (h : readUnsigned negative bytes = some (j, rest)) :
    rest.length < bytes.length ∧ ((∃ n, j = natural n) ∨ ∃ literal, j = number literal) := by
  obtain ⟨hwhole, h⟩ := Option.ite_none_left_eq_some.mp h
  obtain ⟨⟨fraction, afterFraction⟩, hf, h⟩ := Option.bind_eq_some_iff.mp h
  obtain ⟨⟨exponent, afterExponent⟩, he, h⟩ := Option.bind_eq_some_iff.mp h
  have hpos : 0 < (bytes.takeWhile isDigit).length := by
    apply List.length_pos_iff.mpr
    rintro hnil
    exact hwhole (.inl (List.isEmpty_iff.mpr hnil))
  have hsplit : (bytes.takeWhile isDigit).length + (bytes.dropWhile isDigit).length =
      bytes.length := by
    rw [← List.length_append, List.takeWhile_append_dropWhile]
  have hlf : afterFraction.length ≤ (bytes.dropWhile isDigit).length := length_of_readFraction hf
  have hle := length_of_readExponent he
  dsimp only at h
  split at h
  · cases h
    exact ⟨by omega, .inr ⟨_, rfl⟩⟩
  · cases h
    exact ⟨by omega, .inl ⟨_, rfl⟩⟩

/-! ### What a single step reads -/

variable {fuel : Nat} {j : Json} {items : List Json} {entries : List (Bytes × Json)}

/-- How one step reads a value: without another value in it, or from what its bracket opens. -/
inductive ReadsValue (fuel : Nat) (bytes : Bytes) : Json → Bytes → Prop where
  | single {j : Json} {rest : Bytes} (hj : ∀ entries, j ≠ object entries)
      (hr : ∀ other, readValue (other + 1) bytes = some (j, rest))
      (hlt : rest.length < bytes.length) : ReadsValue fuel bytes j rest
  | array {inner more rest : Bytes} {b : UInt8} {items : List Json}
      (hs : skipSpace bytes = 0x5b :: inner) (hb : skipSpace inner = b :: more) (hne : b ≠ 0x5d)
      (hi : readItems fuel (b :: more) = some (items, rest)) :
      ReadsValue fuel bytes (array items) rest
  | noEntries {inner rest : Bytes} (hs : skipSpace bytes = 0x7b :: inner)
      (hb : skipSpace inner = 0x7d :: rest) : ReadsValue fuel bytes (object []) rest
  | object {inner more rest : Bytes} {b : UInt8} {entries : List (Bytes × Json)}
      (hs : skipSpace bytes = 0x7b :: inner) (hb : skipSpace inner = b :: more) (hne : b ≠ 0x7d)
      (he : readEntries fuel (b :: more) = some (entries, rest)) :
      ReadsValue fuel bytes (object entries) rest

theorem readItems_nil : readItems fuel [] = none := by
  match fuel with
  | 0 => simp only [readItems]
  | 1 => simp [readItems, readValue]
  | n + 2 => simp [readItems, readValue, skipSpace]

theorem readEntries_nil : readEntries fuel [] = none := by
  cases fuel with
  | zero => simp only [readEntries]
  | succ n => simp [readEntries, after?, skipSpace]

theorem of_readWord {word : String} {k : Json} (hw : ascii word ≠ [])
    (h : readWord word k bytes = some (j, rest)) : j = k ∧ rest.length < bytes.length := by
  obtain ⟨more, ha, h⟩ := Option.map_eq_some_iff.mp h
  cases h
  exact ⟨rfl, length_of_after? hw ha⟩

def isContainer : Json → Bool
  | array _ => true
  | object _ => true
  | _ => false

/-- A value without a bracket is read in one step. -/
theorem readValue_unbracketed (ha : ∀ inner, skipSpace bytes ≠ 0x5b :: inner)
    (ho : ∀ inner, skipSpace bytes ≠ 0x7b :: inner)
    (h : readValue (fuel + 1) bytes = some (j, rest)) :
    j.isContainer = false ∧ (∀ other, readValue (other + 1) bytes = some (j, rest)) ∧
      rest.length < bytes.length := by
  simp only [readValue] at h ⊢
  split at h
  case h_1 inner hs =>
    obtain ⟨⟨t, more⟩, ht, heq⟩ := Option.map_eq_some_iff.mp h
    cases heq
    exact ⟨rfl, fun _ => h, Nat.lt_trans (length_of_readText ht) (length_of_skipSpace hs)⟩
  case h_2 inner hs => exact absurd hs (ha inner)
  case h_3 inner hs => exact absurd hs (ho inner)
  case h_4 inner hs =>
    obtain ⟨hlt, hj⟩ := of_readUnsigned h
    refine ⟨?_, fun _ => h, Nat.lt_trans hlt (length_of_skipSpace hs)⟩
    rcases hj with ⟨n, rfl⟩ | ⟨literal, rfl⟩ <;> rfl
  case h_5 b inner _ _ _ _ hs =>
    have hle : (b :: inner).length ≤ bytes.length := length_of_skipSpace hs
    suffices hj : j.isContainer = false ∧ rest.length < (b :: inner).length from
      ⟨hj.1, fun _ => h, Nat.lt_of_lt_of_le hj.2 hle⟩
    split_ifs at h
    · obtain ⟨hlt, ⟨n, rfl⟩ | ⟨literal, rfl⟩⟩ := of_readUnsigned h <;> exact ⟨rfl, hlt⟩
    all_goals
      obtain ⟨rfl, hlt⟩ := of_readWord (by decide) h
      exact ⟨rfl, hlt⟩
  case h_6 => cases h

section

variable {inner : Bytes}

theorem cases_of_bracket (hs : skipSpace bytes = 0x5b :: inner)
    (h : readValue (fuel + 1) bytes = some (j, rest)) :
    (skipSpace inner = 0x5d :: rest ∧ j = array []) ∨
      ∃ b more items, skipSpace inner = b :: more ∧ b ≠ 0x5d ∧ j = array items ∧
        readItems fuel (b :: more) = some (items, rest) := by
  simp only [readValue, hs] at h
  split at h
  · rename_i hb
    cases h
    exact .inl ⟨hb, rfl⟩
  · rename_i hne
    obtain ⟨⟨items, last⟩, hi, heq⟩ := Option.map_eq_some_iff.mp h
    cases heq
    cases hb : skipSpace inner with
    | nil => simp [hb, readItems_nil] at hi
    | cons b more => exact .inr ⟨b, more, items, rfl, fun hc => hne more (hc ▸ hb), rfl, hb ▸ hi⟩

theorem cases_of_brace (hs : skipSpace bytes = 0x7b :: inner)
    (h : readValue (fuel + 1) bytes = some (j, rest)) :
    (skipSpace inner = 0x7d :: rest ∧ j = object []) ∨
      ∃ b more entries, skipSpace inner = b :: more ∧ b ≠ 0x7d ∧ j = object entries ∧
        readEntries fuel (b :: more) = some (entries, rest) := by
  simp only [readValue, hs] at h
  split at h
  · rename_i hb
    cases h
    exact .inl ⟨hb, rfl⟩
  · rename_i hne
    obtain ⟨⟨entries, last⟩, he, heq⟩ := Option.map_eq_some_iff.mp h
    cases heq
    cases hb : skipSpace inner with
    | nil => simp [hb, readEntries_nil] at he
    | cons b more => exact .inr ⟨b, more, entries, rfl, fun hc => hne more (hc ▸ hb), rfl, hb ▸ he⟩

theorem readsValue_of_bracket (hs : skipSpace bytes = 0x5b :: inner)
    (h : readValue (fuel + 1) bytes = some (j, rest)) : ReadsValue fuel bytes j rest := by
  rcases cases_of_bracket hs h with ⟨hb, rfl⟩ | ⟨b, more, items, hb, hne, rfl, hi⟩
  · have hall : ∀ other, readValue (other + 1) bytes = some (array [], rest) := by
      intro other
      simp only [readValue, hs, hb]
    exact .single (fun _ => Json.noConfusion) hall
      (Nat.lt_trans (length_of_skipSpace hb) (length_of_skipSpace hs))
  · exact .array hs hb hne hi

theorem readsValue_of_brace (hs : skipSpace bytes = 0x7b :: inner)
    (h : readValue (fuel + 1) bytes = some (j, rest)) : ReadsValue fuel bytes j rest := by
  rcases cases_of_brace hs h with ⟨hb, rfl⟩ | ⟨b, more, entries, hb, hne, rfl, he⟩
  · exact .noEntries hs hb
  · exact .object hs hb hne he

end

theorem readsValue_of_readValue (h : readValue (fuel + 1) bytes = some (j, rest)) :
    ReadsValue fuel bytes j rest := by
  by_cases ha : ∃ inner, skipSpace bytes = 0x5b :: inner
  · obtain ⟨inner, hs⟩ := ha
    exact readsValue_of_bracket hs h
  · by_cases ho : ∃ inner, skipSpace bytes = 0x7b :: inner
    · obtain ⟨inner, hs⟩ := ho
      exact readsValue_of_brace hs h
    · obtain ⟨hj, hall, hlt⟩ := readValue_unbracketed (fun inner hs => ha ⟨inner, hs⟩)
        (fun inner hs => ho ⟨inner, hs⟩) h
      exact .single (fun entries he => nomatch he ▸ hj) hall hlt

/-- How the name of an entry is read, up to and with its colon. -/
inductive ReadsName (bytes : Bytes) : Bytes → Bytes → Prop where
  | intro {opened name named rest : Bytes} (hq : after? [0x22] (skipSpace bytes) = some opened)
      (ht : readText opened = some (name, named))
      (hc : after? [0x3a] (skipSpace named) = some rest) : ReadsName bytes name rest

theorem ReadsName.length_lt {name : Bytes} (h : ReadsName bytes name rest) :
    rest.length < bytes.length := by
  obtain ⟨hq, ht, hc⟩ := h
  exact Nat.lt_of_lt_of_le (length_of_after? (by decide) hc) (Nat.le_trans (length_skipSpace_le _)
    (Nat.le_of_lt (Nat.lt_trans (length_of_readText ht)
      (Nat.lt_of_lt_of_le (length_of_after? (by decide) hq) (length_skipSpace_le bytes)))))

/-- How one step reads items, of which there is at least one. -/
inductive ReadsItems (fuel : Nat) (bytes : Bytes) : List Json → Bytes → Prop where
  | last {j : Json} {after rest : Bytes} (hj : readValue fuel bytes = some (j, after))
      (hs : skipSpace after = 0x5d :: rest) : ReadsItems fuel bytes [j] rest
  | more {j : Json} {items : List Json} {after next rest : Bytes}
      (hj : readValue fuel bytes = some (j, after)) (hs : skipSpace after = 0x2c :: next)
      (hi : readItems fuel next = some (items, rest)) : ReadsItems fuel bytes (j :: items) rest

theorem readsItems_of_readItems (h : readItems (fuel + 1) bytes = some (items, rest)) :
    ReadsItems fuel bytes items rest := by
  simp only [readItems] at h
  obtain ⟨⟨j, after⟩, hj, h⟩ := Option.bind_eq_some_iff.mp h
  dsimp only at h
  split at h
  case h_1 next hs =>
    obtain ⟨⟨items, more⟩, hi, h⟩ := Option.bind_eq_some_iff.mp h
    cases h
    exact .more hj hs hi
  case h_2 next hs =>
    cases h
    exact .last hj hs
  case h_3 => cases h

/-- How one step reads entries, of which there is at least one. -/
inductive ReadsEntries (fuel : Nat) (bytes : Bytes) : List (Bytes × Json) → Bytes → Prop where
  | last {name : Bytes} {j : Json} {inner after rest : Bytes}
      (hn : ReadsName bytes name inner) (hj : readValue fuel inner = some (j, after))
      (hs : skipSpace after = 0x7d :: rest) : ReadsEntries fuel bytes [(name, j)] rest
  | more {name : Bytes} {j : Json} {entries : List (Bytes × Json)} {inner after next rest : Bytes}
      (hn : ReadsName bytes name inner) (hj : readValue fuel inner = some (j, after))
      (hs : skipSpace after = 0x2c :: next) (he : readEntries fuel next = some (entries, rest)) :
      ReadsEntries fuel bytes ((name, j) :: entries) rest

theorem readsEntries_of_readEntries (h : readEntries (fuel + 1) bytes = some (entries, rest)) :
    ReadsEntries fuel bytes entries rest := by
  simp only [readEntries] at h
  obtain ⟨opened, hq, h⟩ := Option.bind_eq_some_iff.mp h
  obtain ⟨⟨name, named⟩, ht, h⟩ := Option.bind_eq_some_iff.mp h
  obtain ⟨inner, hc, h⟩ := Option.bind_eq_some_iff.mp h
  obtain ⟨⟨j, after⟩, hj, h⟩ := Option.bind_eq_some_iff.mp h
  have hn : ReadsName bytes name inner := ⟨hq, ht, hc⟩
  dsimp only at h
  split at h
  case h_1 next hs =>
    obtain ⟨⟨entries, more⟩, he, h⟩ := Option.bind_eq_some_iff.mp h
    cases h
    exact .more hn hj hs he
  case h_2 next hs =>
    cases h
    exact .last hn hj hs
  case h_3 => cases h

theorem ReadsEntries.readEntries (h : ReadsEntries fuel bytes entries rest) :
    Json.readEntries (fuel + 1) bytes = some (entries, rest) := by
  cases h with
  | last hn hj hs =>
    obtain ⟨hq, ht, hc⟩ := hn
    simp only [Json.readEntries, hq, ht, hc, hj, hs, Option.bind_eq_bind, Option.bind_some,
      Option.pure_def]
  | more hn hj hs he =>
    obtain ⟨hq, ht, hc⟩ := hn
    simp only [Json.readEntries, hq, ht, hc, hj, hs, he, Option.bind_eq_bind, Option.bind_some,
      Option.pure_def]

/-! ### What all steps read -/

mutual

theorem length_of_readValue (fuel : Nat) {bytes rest : Bytes} {j : Json}
    (h : readValue fuel bytes = some (j, rest)) : rest.length < bytes.length := by
  match fuel with
  | 0 => exact nomatch h
  | fuel + 1 =>
    cases readsValue_of_readValue h with
    | single _ _ hlt => exact hlt
    | array hs hb _ hi =>
      have hrest := length_of_readItems fuel hi
      have hinner := length_of_skipSpace hs
      have hmore := length_of_skipSpace hb
      simp only [List.length_cons] at hrest
      omega
    | noEntries hs hb => exact Nat.lt_trans (length_of_skipSpace hb) (length_of_skipSpace hs)
    | object hs hb _ he =>
      have hrest := length_of_readEntries fuel he
      have hinner := length_of_skipSpace hs
      have hmore := length_of_skipSpace hb
      simp only [List.length_cons] at hrest
      omega

theorem length_of_readItems (fuel : Nat) {bytes rest : Bytes} {items : List Json}
    (h : readItems fuel bytes = some (items, rest)) : rest.length < bytes.length := by
  match fuel with
  | 0 => exact nomatch h
  | fuel + 1 =>
    cases readsItems_of_readItems h with
    | last hj hs =>
      exact Nat.lt_trans (length_of_skipSpace hs) (length_of_readValue fuel hj)
    | more hj hs hi =>
      exact Nat.lt_trans (length_of_readItems fuel hi)
        (Nat.lt_trans (length_of_skipSpace hs) (length_of_readValue fuel hj))

theorem length_of_readEntries (fuel : Nat) {bytes rest : Bytes} {entries : List (Bytes × Json)}
    (h : readEntries fuel bytes = some (entries, rest)) : rest.length < bytes.length := by
  match fuel with
  | 0 => exact nomatch h
  | fuel + 1 =>
    cases readsEntries_of_readEntries h with
    | last hn hj hs =>
      exact Nat.lt_trans (length_of_skipSpace hs)
        (Nat.lt_trans (length_of_readValue fuel hj) (hn.length_lt))
    | more hn hj hs he =>
      exact Nat.lt_trans (length_of_readEntries fuel he) (Nat.lt_trans (length_of_skipSpace hs)
        (Nat.lt_trans (length_of_readValue fuel hj) (hn.length_lt)))

end

end Countersign.Json
