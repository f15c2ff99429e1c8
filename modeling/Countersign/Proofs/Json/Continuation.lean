import Mathlib.Data.List.Basic
import Mathlib.Data.List.TakeWhile
import Countersign.Proofs.Json.Document

/-! Texts that go on, and texts that break off. A value that its last byte ends is read as before
when more bytes follow. So an object or an array stays what a text consists of only before blanks,
and its text is no text before its last byte. -/

namespace Countersign.Json

variable {bytes rest : Bytes}

theorem skipSpace_append_of_cons {b : UInt8} (h : skipSpace bytes = b :: rest) (more : Bytes) :
    skipSpace (bytes ++ more) = b :: (rest ++ more) := by
  unfold skipSpace at h ⊢
  rw [List.dropWhile_append, h]
  rfl

theorem after?_append_of_some {word : Bytes} (h : after? word bytes = some rest) (more : Bytes) :
    after? word (bytes ++ more) = some (rest ++ more) := by
  unfold after? at h
  split at h
  · rename_i hp
    obtain ⟨tail, rfl⟩ := List.isPrefixOf_iff_prefix.mp hp
    cases h
    rw [List.append_assoc, after?_append, List.drop_left]
  · exact nomatch h

theorem readPieces_append {pieces : List Piece} (h : readPieces bytes = some (pieces, rest))
    (more : Bytes) : readPieces (bytes ++ more) = some (pieces, rest ++ more) := by
  fun_induction readPieces bytes generalizing pieces with
  | case1 => cases h
  | case2 =>
    cases h
    rfl
  | case3 a b c d inner ih =>
    obtain ⟨n, hn, h⟩ := Option.bind_eq_some_iff.mp h
    obtain ⟨⟨others, after⟩, hr, h⟩ := Option.bind_eq_some_iff.mp h
    cases h
    simp [readPieces, hn, ih hr]
  | case4 e inner hne ih =>
    obtain ⟨b, hb, h⟩ := Option.bind_eq_some_iff.mp h
    obtain ⟨⟨others, after⟩, hr, h⟩ := Option.bind_eq_some_iff.mp h
    cases h
    have hu : e ≠ 0x75 := by
      rintro rfl
      cases hb
    simp only [List.cons_append]
    rw [readPieces]
    · simp [hb, ih hr]
    · intro a b' c d tail he _
      exact hu he
  | case5 => cases h
  | case6 b inner hq hs1 hs2 hlow ih =>
    obtain ⟨⟨others, after⟩, hr, h⟩ := Option.map_eq_some_iff.mp h
    cases h
    simp only [not_or] at hlow
    simp only [List.cons_append]
    rw [readPieces]
    · simp [hlow, ih hr]
    · exact hq
    · intro a b' c d tail he
      exact absurd he hlow.2
    · intro e tail he
      exact absurd he hlow.2

theorem readText_append {t : Bytes} (h : readText bytes = some (t, rest)) (more : Bytes) :
    readText (bytes ++ more) = some (t, rest ++ more) := by
  obtain ⟨⟨pieces, after⟩, hr, h⟩ := Option.map_eq_some_iff.mp h
  cases h
  simp [readText, readPieces_append hr]

/-! ### Numbers -/

theorem digitsOf_append_of_ne (hr : (digitsOf bytes).2 ≠ []) (more : Bytes) :
    digitsOf (bytes ++ more) = ((digitsOf bytes).1, (digitsOf bytes).2 ++ more) := by
  induction bytes with
  | nil => exact absurd rfl hr
  | cons b bytes ih =>
    by_cases hb : isDigit b = true
    · have hrest : (digitsOf bytes).2 ≠ [] := by simpa [digitsOf, hb] using hr
      obtain ⟨ht, hd⟩ := Prod.mk.inj (ih hrest)
      simp [digitsOf, hb, ht, hd]
    · simp [digitsOf, hb]

theorem readFraction_append {digits : Bytes} (h : readFraction bytes = some (digits, rest))
    (hr : rest ≠ []) (more : Bytes) :
    readFraction (bytes ++ more) = some (digits, rest ++ more) := by
  unfold readFraction at h
  split at h
  · rename_i inner
    obtain ⟨hd, heq⟩ := Option.ite_none_left_eq_some.mp h
    cases heq
    have hdigits : (digitsOf inner).2 ≠ [] := hr
    have hagain := digitsOf_append_of_ne hdigits more
    simp only [List.cons_append, readFraction, hagain]
    exact if_neg hd
  · rename_i hne
    cases h
    cases bytes with
    | nil => exact absurd rfl hr
    | cons b inner =>
      have hb : b ≠ 0x2e := fun he => hne inner (he ▸ rfl)
      rw [List.cons_append, readFraction]
      intro tail he
      exact hb (List.cons.inj he).1

/-- An exponent is its sign and the digits of what is behind it. -/
theorem exists_readExponent {e : UInt8} (he : e = 0x65 ∨ e = 0x45) (c : UInt8) (inner : Bytes) :
    ∃ sign signed, ∀ more, readExponent (e :: c :: inner ++ more) =
      if (digitsOf (signed ++ more)).1.isEmpty then none
      else some (0x65 :: sign :: (digitsOf (signed ++ more)).1, (digitsOf (signed ++ more)).2) := by
  by_cases hm : c = 0x2d
  · exact ⟨0x2d, inner, fun more => by simp [readExponent, he, hm]⟩
  · by_cases hp : c = 0x2b
    · exact ⟨0x2b, inner, fun more => by simp [readExponent, he, hp]⟩
    · exact ⟨0x2b, c :: inner, fun more => by simp [readExponent, he, hm, hp]⟩

theorem readExponent_append {digits : Bytes} (h : readExponent bytes = some (digits, rest))
    (hr : rest ≠ []) (more : Bytes) :
    readExponent (bytes ++ more) = some (digits, rest ++ more) := by
  cases bytes with
  | nil =>
    cases h
    exact absurd rfl hr
  | cons e inner =>
    by_cases he : e = 0x65 ∨ e = 0x45
    · cases inner with
      | nil => simp [readExponent, he, digitsOf] at h
      | cons c inner =>
        obtain ⟨sign, signed, hread⟩ := exists_readExponent he c inner
        have hnil := hread []
        rw [List.append_nil, List.append_nil, h] at hnil
        obtain ⟨hd, heq⟩ := Option.ite_none_left_eq_some.mp hnil.symm
        cases heq
        rw [hread, digitsOf_append_of_ne hr, if_neg hd]
    · simp only [readExponent, he, if_false, List.cons_append] at h ⊢
      cases h
      rfl

theorem readUnsigned_append {negative : Bool} {j : Json}
    (h : readUnsigned negative bytes = some (j, rest)) (hr : rest ≠ []) (more : Bytes) :
    readUnsigned negative (bytes ++ more) = some (j, rest ++ more) := by
  obtain ⟨hwhole, h⟩ := Option.ite_none_left_eq_some.mp h
  obtain ⟨⟨fraction, afterFraction⟩, hf, h⟩ := Option.bind_eq_some_iff.mp h
  obtain ⟨⟨exponent, afterExponent⟩, he, h⟩ := Option.bind_eq_some_iff.mp h
  have hlast : afterExponent = rest := by
    dsimp only at h
    split at h <;> cases h <;> rfl
  have he' : afterFraction ≠ [] := by
    rintro rfl
    cases he
    exact hr hlast.symm
  have hd : (digitsOf bytes).2 ≠ [] := by
    intro hnil
    have hnone : readFraction (digitsOf bytes).2 = some (fraction, afterFraction) := hf
    rw [hnil] at hnone
    cases hnone
    exact he' rfl
  subst hlast
  have hagain := digitsOf_append_of_ne hd more
  have hf' := readFraction_append hf he' more
  have hx' := readExponent_append he hr more
  simp only [readUnsigned, hagain]
  refine (if_neg hwhole).trans ?_
  simp only [digitsOf, hf', hx', Option.bind_eq_bind, Option.bind_some]
  dsimp only at h
  split at h <;> rename_i hb <;> cases h
  · exact if_pos hb
  · exact if_neg hb

theorem readWord_append {word : String} {k j : Json} (h : readWord word k bytes = some (j, rest))
    (more : Bytes) : readWord word k (bytes ++ more) = some (j, rest ++ more) := by
  obtain ⟨after, ha, h⟩ := Option.map_eq_some_iff.mp h
  cases h
  simp [readWord, after?_append_of_some ha]

/-! ### Values -/

/-- Whether more bytes could belong to the value. -/
def isNumeral : Json → Bool
  | natural _ => true
  | number _ => true
  | _ => false

variable {fuel : Nat} {j : Json}

theorem isNumeral_of_isContainer (h : j.isContainer = true) : j.isNumeral = false := by
  cases j with
  | array _ => rfl
  | object _ => rfl
  | _ => exact nomatch h

theorem ne_nil_of_readUnsigned {negative : Bool} (h : readUnsigned negative bytes = some (j, rest))
    (hr : j.isNumeral = true → rest ≠ []) : rest ≠ [] := by
  obtain ⟨_, ⟨n, rfl⟩ | ⟨literal, rfl⟩⟩ := of_readUnsigned h
  · exact hr rfl
  · exact hr rfl

theorem isNumeral_of_bracket {b : UInt8} {inner : Bytes} (hs : skipSpace bytes = b :: inner)
    (hb : b = 0x5b ∨ b = 0x7b) (h : readValue (fuel + 1) bytes = some (j, rest)) :
    j.isNumeral = false := by
  rcases hb with rfl | rfl
  · rcases cases_of_bracket hs h with ⟨_, rfl⟩ | ⟨_, _, _, _, _, rfl, _⟩ <;> rfl
  · rcases cases_of_brace hs h with ⟨_, rfl⟩ | ⟨_, _, _, _, _, rfl, _⟩ <;> rfl

theorem readValue_append_unbracketed {b : UInt8} {inner : Bytes} (hs : skipSpace bytes = b :: inner)
    (ha : b ≠ 0x5b) (ho : b ≠ 0x7b) (h : readValue (fuel + 1) bytes = some (j, rest))
    (hr : j.isNumeral = true → rest ≠ []) (more : Bytes) :
    readValue (fuel + 1) (bytes ++ more) = some (j, rest ++ more) := by
  have hs' := skipSpace_append_of_cons hs more
  by_cases hq : b = 0x22
  · subst hq
    simp only [readValue, hs] at h
    obtain ⟨⟨t, after⟩, ht, h⟩ := Option.map_eq_some_iff.mp h
    cases h
    simp only [readValue, hs', readText_append ht, Option.map_some]
  · by_cases hm : b = 0x2d
    · subst hm
      simp only [readValue, hs] at h
      simp only [readValue, hs']
      exact readUnsigned_append h (ne_nil_of_readUnsigned h hr) more
    · simp only [readValue, hs] at h
      simp only [readValue, hs']
      split_ifs at h ⊢
      · exact readUnsigned_append h (ne_nil_of_readUnsigned h hr) more
      · exact readWord_append h more
      · exact readWord_append h more
      · exact readWord_append h more

theorem ne_nil_of_skipSpace {b : UInt8} (h : skipSpace bytes = b :: rest) : bytes ≠ [] := by
  rintro rfl
  exact nomatch h

theorem after?_skipSpace_append {word : Bytes} (hw : word ≠ [])
    (h : after? word (skipSpace bytes) = some rest) (more : Bytes) :
    after? word (skipSpace (bytes ++ more)) = some (rest ++ more) := by
  cases hs : skipSpace bytes with
  | nil =>
    have hlt := length_of_after? hw h
    simp [hs] at hlt
  | cons b inner =>
    rw [hs] at h
    rw [skipSpace_append_of_cons hs]
    exact after?_append_of_some h more

theorem ReadsName.append {name : Bytes} (h : ReadsName bytes name rest) (more : Bytes) :
    ReadsName (bytes ++ more) name (rest ++ more) := by
  obtain ⟨hq, ht, hc⟩ := h
  exact ⟨after?_skipSpace_append (by decide) hq more, readText_append ht more,
    after?_skipSpace_append (by decide) hc more⟩

mutual

-- items and entries end with a bracket, so that no number in them stands at the end
theorem readValue_append (fuel : Nat) {bytes rest : Bytes} {j : Json}
    (h : readValue fuel bytes = some (j, rest)) (hr : j.isNumeral = true → rest ≠ [])
    (more : Bytes) : readValue fuel (bytes ++ more) = some (j, rest ++ more) := by
  match fuel with
  | 0 => exact nomatch h
  | fuel + 1 =>
    cases hs : skipSpace bytes with
    | nil => simp [readValue, hs] at h
    | cons b inner =>
      have hs' := skipSpace_append_of_cons hs more
      by_cases ha : b = 0x5b
      · subst ha
        rcases cases_of_bracket hs h with ⟨hb, rfl⟩ | ⟨c, after, items, hb, hc, rfl, hi⟩
        · simp only [readValue, hs', skipSpace_append_of_cons hb more]
        · exact readValue_array hs' (skipSpace_append_of_cons hb more) hc
            (readItems_append fuel hi more)
      · by_cases ho : b = 0x7b
        · subst ho
          rcases cases_of_brace hs h with ⟨hb, rfl⟩ | ⟨c, after, entries, hb, hc, rfl, he⟩
          · simp only [readValue, hs', skipSpace_append_of_cons hb more]
          · exact readValue_object hs' (skipSpace_append_of_cons hb more) hc
              (readEntries_append fuel he more)
        · exact readValue_append_unbracketed hs ha ho h hr more

theorem readItems_append (fuel : Nat) {bytes rest : Bytes} {items : List Json}
    (h : readItems fuel bytes = some (items, rest)) (more : Bytes) :
    readItems fuel (bytes ++ more) = some (items, rest ++ more) := by
  match fuel with
  | 0 => exact nomatch h
  | fuel + 1 =>
    cases readsItems_of_readItems h with
    | last hj hs =>
      exact readItems_last (readValue_append fuel hj (fun _ => ne_nil_of_skipSpace hs) more)
        (skipSpace_append_of_cons hs more)
    | more hj hs hi =>
      exact readItems_more (readValue_append fuel hj (fun _ => ne_nil_of_skipSpace hs) more)
        (skipSpace_append_of_cons hs more) (readItems_append fuel hi more)

theorem readEntries_append (fuel : Nat) {bytes rest : Bytes} {entries : List (Bytes × Json)}
    (h : readEntries fuel bytes = some (entries, rest)) (more : Bytes) :
    readEntries fuel (bytes ++ more) = some (entries, rest ++ more) := by
  match fuel with
  | 0 => exact nomatch h
  | fuel + 1 =>
    cases readsEntries_of_readEntries h with
    | last hn hj hs =>
      exact (ReadsEntries.last (hn.append more)
        (readValue_append fuel hj (fun _ => ne_nil_of_skipSpace hs) more)
        (skipSpace_append_of_cons hs more)).readEntries
    | more hn hj hs he =>
      exact (ReadsEntries.more (hn.append more)
        (readValue_append fuel hj (fun _ => ne_nil_of_skipSpace hs) more)
        (skipSpace_append_of_cons hs more) (readEntries_append fuel he more)).readEntries

end

/-! ### Texts as a whole -/

theorem ended_iff : ended bytes = true ↔ IsBlank bytes := by
  rw [ended, skipSpace, List.isEmpty_iff, List.dropWhile_eq_nil_iff]
  rfl

theorem isBlank_append {more : Bytes} : IsBlank (bytes ++ more) ↔ IsBlank bytes ∧ IsBlank more := by
  simp only [IsBlank, List.mem_append, or_imp, forall_and]

/-- Behind a value that is no number, nothing but blanks may follow. -/
theorem read?_append_eq_some_iff (h : read? bytes = some j) (hj : j.isNumeral = false)
    {more : Bytes} {k : Json} : read? (bytes ++ more) = some k ↔ IsBlank more ∧ k = j := by
  obtain ⟨rest, hv, hend⟩ := read?_eq_some_iff.mp h
  have hnumeral : j.isNumeral = true → rest ≠ [] := fun hno => nomatch hj.symm.trans hno
  have hmore := readValue_of_steps _ (readValue_append _ hv hnumeral more)
    (show _ < steps (bytes ++ more) by rw [steps]; omega)
  have hrest := ended_iff.mp hend
  rw [read?_eq_some_iff]
  constructor
  · rintro ⟨after, hk, hafter⟩
    cases hmore.symm.trans hk
    exact ⟨(isBlank_append.mp (ended_iff.mp hafter)).2, rfl⟩
  · rintro ⟨hblank, rfl⟩
    exact ⟨rest ++ more, hmore, ended_iff.mpr (isBlank_append.mpr ⟨hrest, hblank⟩)⟩

theorem Spells.exists_brackets {t : Bytes} (h : Spells j t) (hj : j.isContainer = Bool.true) :
    (∃ b more, t = b :: more ∧ (b = 0x5b ∨ b = 0x7b)) ∧
      ∃ front b, t = front ++ [b] ∧ isSpace b = Bool.false := by
  cases h with
  | noItems => exact ⟨⟨0x5b, _, rfl, .inl rfl⟩, [0x5b], 0x5d, rfl, by decide⟩
  | array hb h => exact ⟨⟨0x5b, _, rfl, .inl rfl⟩, _, 0x5d, rfl, by decide⟩
  | noEntries => exact ⟨⟨0x7b, _, rfl, .inr rfl⟩, [0x7b], 0x7d, rfl, by decide⟩
  | object hb h => exact ⟨⟨0x7b, _, rfl, .inr rfl⟩, _, 0x7d, rfl, by decide⟩
  | _ => exact nomatch hj

/-- Before its last byte, the text of an object or an array is not the text of anything. -/
theorem Spells.read?_front {t front : Bytes} (h : Spells j t) (hj : j.isContainer = Bool.true)
    (hf : front <+: t) (hne : front ≠ t) : Json.read? front = none := by
  obtain ⟨⟨b, more, hopen, hbracket⟩, init, last, hclose, hlast⟩ := h.exists_brackets hj
  obtain ⟨back, rfl⟩ := hf
  have hb : back ≠ [] := by
    rintro rfl
    exact hne (List.append_nil front).symm
  cases hk : Json.read? front with
  | none => rfl
  | some k =>
    exfalso
    cases front with
    | nil => exact nomatch hk
    | cons c inner =>
      obtain rfl : c = b := (List.cons.inj hopen).1
      have hs : Json.skipSpace (c :: inner) = c :: inner :=
        skipSpace_cons (by rcases hbracket with rfl | rfl <;> decide) inner
      obtain ⟨rest, hv, _⟩ := read?_eq_some_iff.mp hk
      have hnumeral := isNumeral_of_bracket hs hbracket hv
      obtain ⟨hblank, _⟩ := (read?_append_eq_some_iff hk hnumeral).mp h.read?
      -- the last bracket is among the bytes that would have to be blank
      have hmem : last ∈ back := by
        have hget := congrArg List.getLast? hclose
        rw [List.getLast?_append_of_ne_nil _ hb, List.getLast?_concat] at hget
        exact List.mem_of_getLast? hget
      exact nomatch hlast.symm.trans (hblank last hmem)

end Countersign.Json
