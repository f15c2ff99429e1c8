import Countersign.Intent.Digest
import Countersign.Proofs.Bytes.Hex

/-! The texts of a digest. Bringing a text to its normal form twice changes nothing more, and the
texts that name a digest are the ones from which it is read back. -/

namespace Countersign

namespace Digest

theorem text_injective {a b : Digest} (h : a.text = b.text) : a = b := by
  have hl := congrArg String.toList h
  simp only [text, Hex.prefixed, String.toList_ofList, List.cons.injEq, true_and] at hl
  have hb := Hex.encode_injective hl
  cases a
  cases b
  simpa using hb

/-- What a text is lowered to before its prefix is looked at. -/
def lowered (s : String) : List Char := (Text.trim s.toList).map Char.toLower

theorem normalForm_of_prefixed {s : String} {rest : List Char}
    (h : lowered s = '0' :: 'x' :: rest) :
    normalForm s = String.ofList ('0' :: 'x' :: rest) := by
  unfold lowered at h
  simp only [normalForm, h]

theorem normalForm_of_bare {s : String} (h : ∀ rest, lowered s ≠ '0' :: 'x' :: rest) :
    normalForm s = String.ofList ('0' :: 'x' :: lowered s) := by
  unfold normalForm
  dsimp only
  split
  · rename_i rest hrest
    exact absurd hrest (h rest)
  · rfl

theorem exists_normalForm (s : String) : ∃ rest, normalForm s = String.ofList ('0' :: 'x' :: rest) ∧
    (lowered s = '0' :: 'x' :: rest ∨ lowered s = rest) := by
  by_cases h : ∃ rest, lowered s = '0' :: 'x' :: rest
  · obtain ⟨rest, hrest⟩ := h
    exact ⟨rest, normalForm_of_prefixed hrest, .inl hrest⟩
  · refine ⟨lowered s, normalForm_of_bare (fun rest hrest => h ⟨rest, hrest⟩), .inr rfl⟩

theorem last_lowered (s : String) : ∀ c ∈ (lowered s).getLast?, Text.isBlank c = false := by
  intro c hc
  simp only [lowered, List.getLast?_map, Option.mem_def, Option.map_eq_some_iff] at hc
  obtain ⟨b, hb, rfl⟩ := hc
  rw [Text.isBlank_toLower]
  exact Text.last_trim s.toList b hb

theorem toLower_of_mem_lowered {s : String} {c : Char} (h : c ∈ lowered s) : c.toLower = c := by
  obtain ⟨b, _, rfl⟩ := List.mem_map.mp h
  exact Text.toLower_toLower b

/-- A text in normal form has its prefix, ends in no blank and has no capital letter. -/
theorem normalForm_shape (s : String) : ∃ rest, normalForm s = String.ofList ('0' :: 'x' :: rest) ∧
    (∀ c ∈ ('0' :: 'x' :: rest).getLast?, Text.isBlank c = false) ∧ ∀ c ∈ rest, c.toLower = c := by
  obtain ⟨rest, hn, hl | hl⟩ := exists_normalForm s
  · refine ⟨rest, hn, ?_, fun c hc => toLower_of_mem_lowered (s := s) (by simp [hl, hc])⟩
    rw [← hl]
    exact last_lowered s
  · refine ⟨rest, hn, ?_, fun c hc => toLower_of_mem_lowered (s := s) (by simp [hl, hc])⟩
    cases rest with
    | nil =>
      intro c hc
      obtain rfl : 'x' = c := by simpa using hc
      decide
    | cons c rest =>
      have hh := last_lowered s
      rw [hl] at hh
      simpa [List.getLast?_cons_cons] using hh

@[simp]
theorem normalForm_normalForm (s : String) : normalForm (normalForm s) = normalForm s := by
  obtain ⟨rest, hn, hlast, hlow⟩ := normalForm_shape s
  have ht : Text.trim ('0' :: 'x' :: rest) = '0' :: 'x' :: rest :=
    Text.trim_eq_self (by simp [Text.isBlank]) hlast
  have hm : rest.map Char.toLower = rest := by
    rw [List.map_congr_left hlow, List.map_id']
  have hl : lowered (normalForm s) = '0' :: 'x' :: rest := by
    simp [lowered, hn, ht, hm]
  rw [normalForm_of_prefixed hl, hn]

@[simp]
theorem normalForm_text (d : Digest) : normalForm d.text = d.text := by
  have hlist : d.text.toList = '0' :: 'x' :: Hex.encode d.bytes := by
    simp [text, Hex.prefixed]
  have hlast : ∀ c ∈ d.text.toList.getLast?, Text.isBlank c = false := by
    intro c hc
    have hm : c ∈ d.text.toList := List.mem_of_getLast? hc
    simp only [hlist, List.mem_cons] at hm
    rcases hm with rfl | rfl | hm
    · decide
    · decide
    · exact (Hex.isPlain_of_mem_encode hm).2
  have ht : Text.trim d.text.toList = d.text.toList :=
    Text.trim_eq_self (by simp [hlist, Text.isBlank]) hlast
  have hm : (Hex.encode d.bytes).map Char.toLower = Hex.encode d.bytes := by
    rw [List.map_congr_left (fun c hc => (Hex.isPlain_of_mem_encode hc).1), List.map_id']
  have hl : lowered d.text = '0' :: 'x' :: Hex.encode d.bytes := by
    rw [lowered, ht, hlist]
    simp [hm]
  rw [normalForm_of_prefixed hl, text, Hex.prefixed]

theorem parse_of_isNamed {d : Digest} {s : String} (h : d.IsNamed s) : parse s = .ok d := by
  have hlist : (normalForm s).toList.drop 2 = Hex.encode d.bytes := by
    rw [show normalForm s = d.text from h]
    simp [text, Hex.prefixed]
  simp only [parse, hlist, Hex.decode?_encode, d.length_bytes, dite_true]

/-! ### The texts of one digest -/

theorem normalForm_eq_bare (s : String) : normalForm s =
    String.ofList ('0' :: 'x' :: (Hex.bare (Text.trim s.toList)).map Char.toLower) := by
  cases hp : Hex.unprefixed? (Text.trim s.toList) with
  | some digits =>
    have hl : lowered s = '0' :: 'x' :: digits.map Char.toLower := by
      rcases Hex.unprefixed?_eq_some_iff.mp hp with ht | ht <;> rw [lowered, ht] <;> rfl
    rw [normalForm_of_prefixed hl, Hex.bare, hp, Option.getD_some]
  | none =>
    rw [Hex.bare, hp, Option.getD_none]
    apply normalForm_of_bare
    -- a text that is lowered to a prefix has had one
    intro rest hl
    obtain ⟨zero, more, ht, hzero, hmore⟩ := List.map_eq_cons_iff.mp hl
    obtain ⟨x, digits, hd, hx, _⟩ := List.map_eq_cons_iff.mp hmore
    rw [Hex.toLower_eq_zero_iff.mp hzero, hd] at ht
    have hsome := Hex.unprefixed?_eq_some_iff.mpr
      ((Hex.toLower_eq_x_iff.mp hx).imp (fun h => h ▸ ht) (fun h => h ▸ ht))
    simp [hp] at hsome

theorem isNamed_iff {d : Digest} {s : String} :
    d.IsNamed s ↔ (Hex.bare (Text.trim s.toList)).map Char.toLower = Hex.encode d.bytes := by
  show normalForm s = d.text ↔ _
  rw [normalForm_eq_bare, text, Hex.prefixed, String.ofList_inj, List.cons.injEq, List.cons.injEq]
  simp only [true_and]

theorem parse_eq_ok_iff {d : Digest} {s : String} : parse s = .ok d ↔ d.IsNamed s := by
  refine ⟨fun h => ?_, parse_of_isNamed⟩
  unfold parse at h
  split at h
  · exact nomatch h
  · rename_i bytes hdecode
    split at h
    · cases h
      rw [normalForm_eq_bare, String.toList_ofList, List.drop_succ_cons, List.drop_succ_cons,
        List.drop_zero, Hex.decode?_map_toLower] at hdecode
      exact isNamed_iff.mpr (Hex.decode?_eq_some_iff.mp hdecode)
    · exact nomatch h

/-- The digits of the digest, each in either case, alone or behind a prefix. -/
def IsSpelled (d : Digest) (s : List Char) : Prop :=
  ∃ digits, digits.map Char.toLower = Hex.encode d.bytes ∧
    (s = digits ∨ s = '0' :: 'x' :: digits ∨ s = '0' :: 'X' :: digits)

theorem isNamed_iff_isSpelled {d : Digest} {s : String} :
    d.IsNamed s ↔ d.IsSpelled (Text.trim s.toList) := by
  rw [isNamed_iff]
  constructor
  · intro h
    refine ⟨_, h, ?_⟩
    cases hp : Hex.unprefixed? (Text.trim s.toList) with
    | none => exact .inl (by rw [Hex.bare, hp, Option.getD_none])
    | some digits =>
      right
      rw [Hex.bare, hp, Option.getD_some]
      exact Hex.unprefixed?_eq_some_iff.mp hp
  · rintro ⟨digits, h, hs | hs | hs⟩
    · rw [hs, Hex.bare_of_digits, h]
      intro c hc
      rw [← Hex.isDigit_toLower]
      exact Hex.isDigit_of_mem_encode (h ▸ List.mem_map_of_mem hc)
    · rwa [hs]
    · rwa [hs]

theorem normalForm_blank {s : String} (h : Text.trim s.toList = []) : normalForm s = "0x" := by
  have hl : lowered s = [] := by simp [lowered, h]
  rw [normalForm_of_bare (by simp [hl]), hl]

theorem not_blank_of_isNamed {d : Digest} {s : String} (h : d.IsNamed s) :
    Text.trim s.toList ≠ [] := by
  intro hb
  have ht : d.text = "0x" := by rw [← show normalForm s = d.text from h, normalForm_blank hb]
  have hlist := congrArg String.toList ht
  have hd := d.length_bytes
  cases hbytes : d.bytes with
  | nil => simp [hbytes] at hd
  | cons b rest => simp [text, Hex.prefixed, hbytes, Hex.encode] at hlist

end Digest
end Countersign
