import Countersign.Intent.Request
import Countersign.Proofs.Json.Number
import Countersign.Proofs.Json.Record
import Countersign.Proofs.Json.Document
import Countersign.Proofs.Json.RoundTrip
import Countersign.Proofs.Except

/-! Amounts as requests write them. A text is decimal or, behind a prefix, hexadecimal; a number in
JSON is an amount if it is written as digits alone; and however it is written, it is one amount. -/

namespace Countersign

theorem Amount.ofNat?_eq_some_iff {n : Nat} {v : Amount} : ofNat? n = some v ↔ v.toNat = n := by
  have hv : v.toNat < 1 <<< 256 := v.isLt
  rw [ofNat?]
  constructor
  · intro h
    obtain ⟨hn, h⟩ := Option.ite_none_right_eq_some.mp h
    rw [← Option.some.inj h, BitVec.toNat_ofNat]
    exact Nat.mod_eq_of_lt hn
  · rintro rfl
    rw [if_pos hv, BitVec.ofNat_toNat, BitVec.setWidth_eq]

namespace Quantity

open Text (Denotes)

/-! ### Texts -/

/-- The digits are what follows `0x` or `0X` in the text. -/
def IsPrefixed (s digits : List Char) : Prop := s = '0' :: 'x' :: digits ∨ s = '0' :: 'X' :: digits

/-- The text is the number in decimal digits and nothing else, or in hexadecimal digits behind a
prefix. -/
def IsWritten (s : List Char) (n : Nat) : Prop :=
  (s ≠ [] ∧ Denotes 10 s n) ∨ ∃ digits, IsPrefixed s digits ∧ digits ≠ [] ∧ Denotes 16 digits n

/-- There are underscores behind the prefix, and all else there are the digits of the number. -/
def IsSeparated (s : List Char) (n : Nat) : Prop :=
  ∃ digits, IsPrefixed s digits ∧ '_' ∈ digits ∧ Denotes 16 (digits.filter (· ≠ '_')) n

theorem hexValue?_eq_some_iff {s : List Char} {n : Nat} :
    hexValue? s = some n ↔ Denotes 16 (s.filter (· ≠ '_')) n := Text.denotes_sixteen_iff.symm

theorem not_denotes_of_isPrefixed {s digits : List Char} (h : IsPrefixed s digits) (n : Nat) :
    ¬ Denotes 10 s n := by
  intro hd
  rcases h with rfl | rfl
  · exact absurd (hd.isDigit (c := 'x') (by simp)) (by decide)
  · exact absurd (hd.isDigit (c := 'X') (by simp)) (by decide)

theorem hexValue?_iff {digits : List Char} {n : Nat} :
    hexValue? digits = some n ↔
      Denotes 16 digits n ∨ '_' ∈ digits ∧ Denotes 16 (digits.filter (· ≠ '_')) n := by
  rw [hexValue?_eq_some_iff]
  by_cases hu : '_' ∈ digits
  · have hnot : ¬ Denotes 16 digits n := fun hd => absurd (hd.isDigit hu) (by decide)
    simp only [hu, hnot, true_and, false_or]
  · have hsame : digits.filter (· ≠ '_') = digits := by
      apply List.filter_eq_self.mpr
      intro c hc
      simpa using fun heq : c = '_' => hu (heq ▸ hc)
    simp only [hu, hsame, false_and, or_false]

theorem numberOf?_of_isPrefixed {s digits : List Char} (h : IsPrefixed s digits)
    (hne : digits ≠ []) : numberOf? s = hexValue? digits := by
  rw [numberOf?, Hex.unprefixed?_eq_some_iff.mpr h]
  cases digits with
  | nil => exact absurd rfl hne
  | cons c rest => rfl

theorem IsPrefixed.unique {s digits others : List Char} (h : IsPrefixed s digits)
    (ho : IsPrefixed s others) : digits = others :=
  Option.some.inj ((Hex.unprefixed?_eq_some_iff.mpr h).symm.trans
    (Hex.unprefixed?_eq_some_iff.mpr ho))

theorem numberOf?_eq_some_iff {s : List Char} {n : Nat} :
    numberOf? s = some n ↔ IsWritten s n ∨ IsSeparated s n := by
  by_cases hs : ∃ digits, IsPrefixed s digits
  · obtain ⟨digits, h⟩ := hs
    have hdecimal : ¬ (s ≠ [] ∧ Denotes 10 s n) := fun hd => not_denotes_of_isPrefixed h n hd.2
    have hwritten : IsWritten s n ↔ digits ≠ [] ∧ Denotes 16 digits n :=
      ⟨fun hw => (hw.resolve_left hdecimal).elim fun _ ho => h.unique ho.1 ▸ ho.2,
        fun hw => .inr ⟨digits, h, hw⟩⟩
    have hseparated : IsSeparated s n ↔ '_' ∈ digits ∧ Denotes 16 (digits.filter (· ≠ '_')) n :=
      ⟨fun ⟨_, ho, hd⟩ => h.unique ho ▸ hd, fun hd => ⟨digits, h, hd⟩⟩
    rw [hwritten, hseparated]
    by_cases hne : digits = []
    · subst hne
      simp [numberOf?, Hex.unprefixed?_eq_some_iff.mpr h]
    · rw [numberOf?_of_isPrefixed h hne, hexValue?_iff]
      simp only [ne_eq, hne, not_false_eq_true, true_and]
  · have hnone : Hex.unprefixed? s = none :=
      Option.eq_none_iff_forall_ne_some.mpr fun digits hd =>
        hs ⟨digits, Hex.unprefixed?_eq_some_iff.mp hd⟩
    simp only [numberOf?, hnone, Text.decimal?_eq_some_iff]
    refine ⟨fun hd => .inl (.inl hd), ?_⟩
    rintro ((hd | ⟨digits, h, _⟩) | ⟨digits, h, _⟩)
    · exact hd
    · exact absurd ⟨digits, h⟩ hs
    · exact absurd ⟨digits, h⟩ hs

/-- What text an amount is read from. -/
theorem ofText_eq_ok_iff {s : String} {v : Amount} :
    ofText s = .ok v ↔
      IsWritten (Text.trim s.toList) v.toNat ∨ IsSeparated (Text.trim s.toList) v.toNat := by
  have hread : (numberOf? (Text.trim s.toList)).bind Amount.ofNat? = some v ↔
      numberOf? (Text.trim s.toList) = some v.toNat := by
    simp only [Option.bind_eq_some_iff, Amount.ofNat?_eq_some_iff, exists_eq_right']
  rw [← numberOf?_eq_some_iff, ← hread, ofText]
  cases (numberOf? (Text.trim s.toList)).bind Amount.ofNat? with
  | none => exact ⟨nofun, nofun⟩
  | some w => simp

theorem not_isSeparated_of_not_mem {s : List Char} (h : '_' ∉ s) (n : Nat) : ¬ IsSeparated s n := by
  rintro ⟨digits, rfl | rfl, hu, _⟩
  · exact h (by simp [hu])
  · exact h (by simp [hu])

theorem IsWritten.not_blank {s : List Char} {n : Nat} (h : IsWritten s n) {c : Char} (hc : c ∈ s) :
    Text.isBlank c = false := by
  rcases h with ⟨_, hd⟩ | ⟨digits, hp, _, hd⟩
  · exact Hex.not_blank_of_isDigit (hd.isDigit hc)
  · rcases hp with rfl | rfl
    all_goals
      simp only [List.mem_cons] at hc
      rcases hc with rfl | rfl | hc
      · decide
      · decide
      · exact Hex.not_blank_of_isDigit (hd.isDigit hc)

theorem ofText_of_isWritten {s : String} {v : Amount} (h : IsWritten s.toList v.toNat) :
    ofText s = .ok v :=
  ofText_eq_ok_iff.mpr (.inl ((Text.trim_of_no_blank fun _ => h.not_blank).symm ▸ h))

theorem isWritten_decimal (n : Nat) : IsWritten (Text.decimal n) n :=
  .inl ⟨Text.decimal_ne_nil n, Text.denotes_decimal n⟩

theorem isWritten_toDigits (n : Nat) : IsWritten ('0' :: 'x' :: Nat.toDigits 16 n) n :=
  .inr ⟨_, .inl rfl, Nat.toDigits_ne_nil, Text.denotes_toDigits (by decide) (by decide) n⟩

/-! ### Numbers in JSON -/

variable {literal : Bytes} {j : Json}

theorem ofJson_natural {level : Nat} (hl : level ≤ 127) (n : Nat) (q : Quantity) :
    ofJson level (.natural n) = .ok q ↔ ∃ v : Amount, v.toNat = n ∧ q = number v := by
  have htaken : (Json.natural n).takenIn? level = some (.natural n) := by
    simp [Json.takenIn?, Json.Sound, Json.legible, Json.depth, hl, Json.untagged?]
  simp only [ofJson, htaken]
  cases hv : Amount.ofNat? n with
  | none =>
    refine ⟨nofun, ?_⟩
    rintro ⟨v, hn, _⟩
    exact nomatch hv.symm.trans (Amount.ofNat?_eq_some_iff.mpr hn)
  | some v =>
    have hn := Amount.ofNat?_eq_some_iff.mp hv
    simp only [Except.ok.injEq]
    refine ⟨fun h => ⟨v, hn, h.symm⟩, ?_⟩
    rintro ⟨w, hw, rfl⟩
    rw [BitVec.eq_of_toNat_eq (hn.trans hw.symm)]

theorem ofJson_number {level : Nat} (hl : level ≤ 127) (written : Bytes) :
    ofJson level (.number written) = .error (.notNatural (Json.shown written)) := by
  have htaken : (Json.number written).takenIn? level = some (.number written) := by
    simp [Json.takenIn?, Json.Sound, Json.legible, Json.depth, hl, Json.untagged?]
  simp only [ofJson, htaken]

/-- A number is an amount if it is written as digits alone and fits into 256 bits. -/
theorem ofJson_eq_ok_iff_of_isReadAs (h : Json.IsReadAs literal j) {level : Nat}
    (hl : level ≤ 127) {q : Quantity} :
    ofJson level j = .ok q ↔ ∃ v : Amount, Json.IsNatural literal v.toNat ∧ q = number v := by
  rcases h with ⟨n, hn, rfl⟩ | ⟨hnot, written, rfl⟩
  · have hvalue : ∀ v : Amount, Json.IsNatural literal v.toNat ↔ v.toNat = n :=
      fun v => ⟨fun hv => hv.2.symm.trans hn.2, fun hv => hv ▸ hn⟩
    simp only [ofJson_natural hl, hvalue]
  · rw [ofJson_number hl]
    refine ⟨nofun, ?_⟩
    rintro ⟨v, hv, _⟩
    exact absurd hv (hnot v.toNat)

end Quantity

/-! ### Requests -/

theorem Json.readValue_quote (bytes rest : Bytes) (fuel : Nat) :
    readValue (fuel + 1) (quote bytes ++ rest) = some (text bytes, rest) := by
  have hq : quote bytes ++ rest = 0x22 :: (bytes.flatMap escape ++ 0x22 :: rest) := by
    simp [quote]
  have hs := skipSpace_cons (b := 0x22) (by decide) (bytes.flatMap escape ++ 0x22 :: rest)
  simp only [hq, readValue, hs, readText_quoted, Option.map_some]

namespace Request

/-- A request in JSON text, with the value as it is written there. -/
def textWith (target data : String) (value : Bytes) : Bytes :=
  0x7b :: (Json.quote (Text.utf8 "to") ++ 0x3a :: (Json.quote (Text.utf8 target) ++
    0x2c :: (Json.quote (Text.utf8 "value") ++ 0x3a :: (value ++
    0x2c :: (Json.quote (Text.utf8 "data") ++ 0x3a :: (Json.quote (Text.utf8 data) ++ [0x7d]))))))

variable {literal : Bytes}

theorem exists_readDocument_textWith (target data : String) (h : Json.IsNumber literal) :
    ∃ j, Json.IsReadAs literal j ∧
      Json.readDocument (textWith target data literal) = .fields
        [(Text.utf8 "to", .string target), (Text.utf8 "value", j),
          (Text.utf8 "data", .string data)] true := by
  have hquote : ∀ bytes rest,
      Json.skipSpace (Json.quote bytes ++ rest) = Json.quote bytes ++ rest :=
    fun bytes rest => Json.skipSpace_cons (by decide) _
  let last := Json.quote (Text.utf8 "data") ++ 0x3a :: (Json.quote (Text.utf8 data) ++ [0x7d])
  obtain ⟨j, hj, hvalue⟩ := h.exists_readValue Json.isBlank_nil
    (Json.endsNumber_cons (b := 0x2c) (by simp) last) 1
  rw [List.nil_append] at hvalue
  have hlast : Json.readEntries 2 last = some ([(Text.utf8 "data", .string data)], []) :=
    Json.readEntries_last (hquote _ _) (Json.readValue_quote _ [0x7d] 0) rfl
  have hmiddle := Json.readEntries_more (hquote (Text.utf8 "value") _) hvalue
    (Json.skipSpace_cons (by decide) last) hlast
  have hfirst := Json.readEntries_more (hquote (Text.utf8 "to") _)
    (Json.readValue_quote (Text.utf8 target) _ 2) (Json.skipSpace_cons (by decide) _) hmiddle
  have hopen : Json.skipSpace (textWith target data literal) = 0x7b :: _ := rfl
  have hobject := Json.readValue_object hopen (hquote _ _) (by decide) hfirst
  exact ⟨j, hj, Json.readDocument_brace rfl hobject rfl⟩

theorem ofJson_textWith (target data : String) (h : Json.IsNumber literal) :
    ∃ j, Json.IsReadAs literal j ∧ ofJson (textWith target data literal) =
      (Quantity.ofJson 1 j).map fun q => ⟨some target, some q, some data⟩ := by
  obtain ⟨j, hj, hread⟩ := exists_readDocument_textWith target data h
  refine ⟨j, hj, ?_⟩
  have hto : form.fields.idxOf? "to" = some 0 := by decide
  have hvalue : form.fields.idxOf? "value" = some 1 := by decide
  have hdata : form.fields.idxOf? "data" = some 2 := by decide
  have hgiven : form.given (Json.readDocument (textWith target data literal)) =
      ⟨[(0, .string target), (1, j), (2, .string data)], true⟩ := by
    rw [hread, Json.Form.given, Json.Form.named_cons_of_new hto List.not_mem_nil,
      Json.Form.named_cons_of_new hvalue (by decide), Json.Form.named_cons_of_new hdata (by decide)]
    rfl
  have hfirst : setField {} (0, .string target) = .ok ⟨some target, none, none⟩ := by
    simp [setField, setField.field]
  have hlast : ∀ q, setField ⟨some target, q, none⟩ (2, .string data) =
      .ok ⟨some target, q, some data⟩ := by simp [setField, setField.field]
  have hmiddle : setField ⟨some target, none, none⟩ (1, j) =
      (Quantity.ofJson 1 j).map fun q => ⟨some target, some q, none⟩ := by
    rcases hj with ⟨_, _, rfl⟩ | ⟨_, _, rfl⟩ <;> rfl
  simp only [ofJson, hgiven, List.foldlM_cons, List.foldlM_nil, hfirst, bind, Except.bind, hmiddle]
  cases Quantity.ofJson 1 j with
  | error _ => rfl
  | ok q =>
    simp only [Except.map, hlast]
    rfl

end Request

/-! ### All notations -/

theorem Intent.ofRequest_congr {target data : Option String} {q p : Quantity}
    (h : q.amount = p.amount) :
    ofRequest ⟨target, some q, data⟩ = ofRequest ⟨target, some p, data⟩ := by
  simp only [ofRequest, h]

namespace Quantity

theorem ofJson_textWith_eq_ok_iff (target data : String) {literal : Bytes}
    (h : Json.IsNumber literal) {r : Request} :
    Request.ofJson (Request.textWith target data literal) = .ok r ↔
      ∃ v : Amount, Json.IsNatural literal v.toNat ∧
        r = ⟨some target, some (number v), some data⟩ := by
  obtain ⟨j, hj, hread⟩ := Request.ofJson_textWith target data h
  have hvalue : ∀ q, ofJson 1 j = .ok q ↔ _ :=
    fun q => ofJson_eq_ok_iff_of_isReadAs hj (by omega)
  rw [hread, map_eq_ok_iff]
  simp only [hvalue]
  constructor
  · rintro ⟨q, ⟨v, hv, rfl⟩, rfl⟩
    exact ⟨v, hv, rfl⟩
  · rintro ⟨v, hv, rfl⟩
    exact ⟨_, ⟨v, hv, rfl⟩, rfl⟩

/-- An amount is read exactly, and is the same amount in all notations. Beside the digits there is
only one thing that a text can have: underscores, and those behind a prefix. -/
theorem amounts_are_exact_but_for_underscores (s : String) (v : Amount) :
    ((text s).amount = .ok v ↔
      IsWritten (Text.trim s.toList) v.toNat ∨ IsSeparated (Text.trim s.toList) v.toNat) ∧
    ('_' ∉ s.toList → ((text s).amount = .ok v ↔ IsWritten (Text.trim s.toList) v.toNat)) ∧
    ∀ literal, Json.IsNumber literal →
      (∃ j, Json.read? literal = some j ∧ ∀ q,
        ofJson 0 j = .ok q ↔ ∃ w : Amount, Json.IsNatural literal w.toNat ∧ q = number w) ∧
      ∀ target data : String,
        (∀ r, Request.ofJson (Request.textWith target data literal) = .ok r ↔
          ∃ w : Amount, Json.IsNatural literal w.toNat ∧
            r = ⟨some target, some (number w), some data⟩) ∧
        (Json.IsNatural literal v.toNat → IsWritten (Text.trim s.toList) v.toNat →
          ∃ r, Request.ofJson (Request.textWith target data literal) = .ok r ∧
            Intent.ofRequest r = Intent.ofRequest ⟨some target, some (text s), some data⟩) := by
  refine ⟨ofText_eq_ok_iff, fun hu => ?_, fun literal hl => ⟨?_, fun target data => ⟨?_, ?_⟩⟩⟩
  · have hnot := not_isSeparated_of_not_mem (fun h => hu (Text.mem_of_mem_trim h)) v.toNat
    exact ofText_eq_ok_iff.trans (or_iff_left hnot)
  · obtain ⟨j, hj, hread⟩ := hl.exists_read?
    exact ⟨j, hread, fun q => ofJson_eq_ok_iff_of_isReadAs hj (by omega)⟩
  · exact fun r => ofJson_textWith_eq_ok_iff target data hl
  · intro hn hs
    refine ⟨_, (ofJson_textWith_eq_ok_iff target data hl).mpr ⟨v, hn, rfl⟩, ?_⟩
    exact Intent.ofRequest_congr (ofText_eq_ok_iff.mpr (.inl hs) : (text s).amount = .ok v).symm

theorem sixteen_is_read_in_all_notations :
    Json.IsNumber [0x31, 0x36] ∧ Json.IsNatural [0x31, 0x36] 16 ∧
      (∃ r, Request.ofJson (Request.textWith "0x" "0x" [0x31, 0x36]) = .ok r ∧
        Intent.ofRequest r = Intent.ofRequest ⟨some "0x", some (text " 0X0010\n"), some "0x"⟩) ∧
      (text "0x1_0").amount = .ok 16 := by
  have hdigits : Json.AreDigits [0x31, 0x36] := ⟨by decide, by simp [Json.isDigit]⟩
  have hnumber : Json.IsNumber [0x31, 0x36] :=
    @Json.IsNumber.parts [] [0x31, 0x36] [] [] (.inl rfl) hdigits (by decide) .none .none
  have hnatural : Json.IsNatural [0x31, 0x36] 16 := ⟨hdigits, by decide⟩
  have hwritten : IsWritten (Text.trim " 0X0010\n".toList) 16 :=
    .inr ⟨['0', '0', '1', '0'], .inr (by decide), by decide, [0, 0, 1, 0], by decide, by decide,
      by decide⟩
  have hseparated : IsSeparated (Text.trim "0x1_0".toList) 16 :=
    ⟨['1', '_', '0'], .inl (by decide), by decide, [1, 0], by decide, by decide, by decide⟩
  obtain ⟨_, _, hnumbers⟩ := amounts_are_exact_but_for_underscores " 0X0010\n" 16
  obtain ⟨htext, _⟩ := amounts_are_exact_but_for_underscores "0x1_0" 16
  obtain ⟨_, hrequest⟩ := hnumbers [0x31, 0x36] hnumber
  exact ⟨hnumber, hnatural, (hrequest "0x" "0x").2 hnatural hwritten, htext.mpr (.inr hseparated)⟩

/-- No digit at all is an amount of nothing if an underscore stands in its place, though a prefix
alone is refused; and decimal digits may not be separated. -/
theorem underscores_are_taken_for_digits :
    (text "0x_").amount = .ok 0 ∧ ¬ IsWritten (Text.trim "0x_".toList) 0 ∧
      (text "0x1_0").amount = .ok 16 ∧ ¬ IsWritten (Text.trim "0x1_0".toList) 16 ∧
      (text "0x").amount = .error (.notAmount "0x") ∧
      (text "1_0").amount = .error (.notAmount "1_0") := by
  have hnot : ∀ s : List Char, '_' ∈ s → ∀ n, ¬ IsWritten s n := by
    rintro s hu n (⟨_, hd⟩ | ⟨digits, rfl | rfl, _, hd⟩)
    · exact absurd (hd.isDigit hu) (by decide)
    · exact absurd (hd.isDigit (c := '_') (by simpa using hu)) (by decide)
    · exact absurd (hd.isDigit (c := '_') (by simpa using hu)) (by decide)
  exact ⟨by decide, hnot _ (by decide) 0, by decide, hnot _ (by decide) 16, by decide, by decide⟩

end Quantity
end Countersign
