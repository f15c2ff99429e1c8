import Countersign.Proofs.Json.Progress

/-! The bound on the steps of a reader is never what ends it, and an object or an array is found
whole, where a text is read up to its first fault, just if the text consists of it. -/

namespace Countersign.Json

mutual

-- induction on the steps that were taken; each bracket costs two of the others and one byte
/-- What some number of steps reads is read by any number that is enough for the bytes. -/
theorem readValue_of_steps (fuel : Nat) {bytes rest : Bytes} {j : Json} {other : Nat}
    (h : readValue fuel bytes = some (j, rest)) (ho : 2 * bytes.length < other) :
    readValue other bytes = some (j, rest) := by
  match fuel with
  | 0 => exact nomatch h
  | fuel + 1 =>
    obtain ⟨other, rfl⟩ : ∃ n, other = n + 1 := ⟨other - 1, by omega⟩
    cases readsValue_of_readValue h with
    | single _ hall _ => exact hall other
    | array hs hb hne hi =>
      have hinner := length_of_skipSpace hs
      have hmore := length_of_skipSpace hb
      exact readValue_array hs hb hne
        (readItems_of_steps fuel hi (by simp only [List.length_cons]; omega))
    | noEntries hs hb => simp only [readValue, hs, hb]
    | object hs hb hne he =>
      have hinner := length_of_skipSpace hs
      have hmore := length_of_skipSpace hb
      exact readValue_object hs hb hne
        (readEntries_of_steps fuel he (by simp only [List.length_cons]; omega))

theorem readItems_of_steps (fuel : Nat) {bytes rest : Bytes} {items : List Json} {other : Nat}
    (h : readItems fuel bytes = some (items, rest)) (ho : 2 * bytes.length + 1 < other) :
    readItems other bytes = some (items, rest) := by
  match fuel with
  | 0 => exact nomatch h
  | fuel + 1 =>
    obtain ⟨other, rfl⟩ : ∃ n, other = n + 1 := ⟨other - 1, by omega⟩
    cases readsItems_of_readItems h with
    | last hj hs => exact readItems_last (readValue_of_steps fuel hj (by omega)) hs
    | more hj hs hi =>
      have hafter := length_of_readValue fuel hj
      have hnext := length_of_skipSpace hs
      exact readItems_more (readValue_of_steps fuel hj (by omega)) hs
        (readItems_of_steps fuel hi (by omega))

theorem readEntries_of_steps (fuel : Nat) {bytes rest : Bytes} {entries : List (Bytes × Json)}
    {other : Nat} (h : readEntries fuel bytes = some (entries, rest))
    (ho : 2 * bytes.length + 1 < other) : readEntries other bytes = some (entries, rest) := by
  match fuel with
  | 0 => exact nomatch h
  | fuel + 1 =>
    obtain ⟨other, rfl⟩ : ∃ n, other = n + 1 := ⟨other - 1, by omega⟩
    cases readsEntries_of_readEntries h with
    | last hn hj hs =>
      have hinner := hn.length_lt
      exact (ReadsEntries.last hn (readValue_of_steps fuel hj (by omega)) hs).readEntries
    | more hn hj hs he =>
      have hinner := hn.length_lt
      have hafter := length_of_readValue fuel hj
      have hnext := length_of_skipSpace hs
      exact (ReadsEntries.more hn (readValue_of_steps fuel hj (by omega)) hs
        (readEntries_of_steps fuel he (by omega))).readEntries

end

variable {fuel : Nat} {bytes rest : Bytes} {items : List Json} {entries : List (Bytes × Json)}

theorem fieldsFrom_of_readEntries {other : Nat}
    (h : readEntries fuel bytes = some (entries, rest)) (ho : bytes.length < other) :
    fieldsFrom other bytes = (entries, ended rest) := by
  induction fuel generalizing bytes rest entries other with
  | zero => exact nomatch h
  | succ fuel ih =>
    obtain ⟨other, rfl⟩ : ∃ n, other = n + 1 := ⟨other - 1, by omega⟩
    cases readsEntries_of_readEntries h with
    | @last name j inner after _ hn hj hs =>
      have hj' : readValue (steps inner) inner = some (j, after) :=
        readValue_of_steps fuel hj (by simp [steps])
      obtain ⟨hq, ht, hc⟩ := hn
      simp only [fieldsFrom, hq, ht, hc, hj', hs, Option.bind_eq_bind, Option.bind_some,
        Option.pure_def]
    | @more name j entries inner after next _ hn hj hs he =>
      have hinner := hn.length_lt
      have hafter := length_of_readValue fuel hj
      have hnext := length_of_skipSpace hs
      have hj' : readValue (steps inner) inner = some (j, after) :=
        readValue_of_steps fuel hj (by simp [steps])
      have he' := ih he (show next.length < other by omega)
      obtain ⟨hq, ht, hc⟩ := hn
      simp only [fieldsFrom, hq, ht, hc, hj', hs, he', Option.bind_eq_bind, Option.bind_some,
        Option.pure_def]

theorem itemsFrom_of_readItems {other : Nat} (h : readItems fuel bytes = some (items, rest))
    (ho : bytes.length < other) : itemsFrom other bytes = (items, ended rest) := by
  induction fuel generalizing bytes rest items other with
  | zero => exact nomatch h
  | succ fuel ih =>
    obtain ⟨other, rfl⟩ : ∃ n, other = n + 1 := ⟨other - 1, by omega⟩
    cases readsItems_of_readItems h with
    | @last j after _ hj hs =>
      have hj' : readValue (steps bytes) bytes = some (j, after) :=
        readValue_of_steps fuel hj (by simp [steps])
      simp only [itemsFrom, hj', hs]
    | @more j items after next _ hj hs hi =>
      have hafter := length_of_readValue fuel hj
      have hnext := length_of_skipSpace hs
      have hj' : readValue (steps bytes) bytes = some (j, after) :=
        readValue_of_steps fuel hj (by simp [steps])
      have hi' := ih hi (show next.length < other by omega)
      simp only [itemsFrom, hj', hs, hi']

theorem readItems_of_itemsFrom {other : Nat} (h : itemsFrom other bytes = (items, true)) :
    ∃ rest, ended rest = true ∧ readItems (2 * bytes.length + 2) bytes = some (items, rest) := by
  induction other generalizing bytes items with
  | zero => simp [itemsFrom] at h
  | succ other ih =>
    cases hj : readValue (steps bytes) bytes with
    | none => simp [itemsFrom, hj] at h
    | some read =>
      obtain ⟨j, after⟩ := read
      have hafter := length_of_readValue _ hj
      have hj' : readValue (2 * bytes.length + 1) bytes = some (j, after) :=
        readValue_of_steps _ hj (by omega)
      cases hs : skipSpace after with
      | nil => simp [itemsFrom, hj, hs] at h
      | cons b next =>
        have hnext := length_of_skipSpace hs
        by_cases hcomma : b = 0x2c
        · subst hcomma
          simp only [itemsFrom, hj, hs] at h
          obtain ⟨rfl, hwhole⟩ := Prod.mk.inj h
          obtain ⟨rest, hend, hi⟩ := ih (Prod.ext rfl hwhole)
          exact ⟨rest, hend, readItems_more hj' hs (readItems_of_steps _ hi (by omega))⟩
        · by_cases hclose : b = 0x5d
          · subst hclose
            simp only [itemsFrom, hj, hs] at h
            obtain ⟨rfl, hend⟩ := Prod.mk.inj h
            exact ⟨next, hend, readItems_last hj' hs⟩
          · simp [itemsFrom, hj, hs, hcomma, hclose] at h

theorem readEntries_of_fieldsFrom {other : Nat} (h : fieldsFrom other bytes = (entries, true)) :
    ∃ rest, ended rest = true ∧
      readEntries (2 * bytes.length + 2) bytes = some (entries, rest) := by
  induction other generalizing bytes entries with
  | zero => simp [fieldsFrom] at h
  | succ other ih =>
    cases hq : after? [0x22] (skipSpace bytes) with
    | none => simp [fieldsFrom, hq] at h
    | some opened =>
      cases ht : readText opened with
      | none => simp [fieldsFrom, hq, ht] at h
      | some read =>
        obtain ⟨name, named⟩ := read
        cases hc : after? [0x3a] (skipSpace named) with
        | none => simp [fieldsFrom, hq, ht, hc] at h
        | some inner =>
          have hn : ReadsName bytes name inner := ⟨hq, ht, hc⟩
          have hinner := hn.length_lt
          cases hj : readValue (steps inner) inner with
          | none => simp [fieldsFrom, hq, ht, hc, hj] at h
          | some read =>
            obtain ⟨j, after⟩ := read
            have hafter := length_of_readValue _ hj
            have hj' : readValue (2 * bytes.length + 1) inner = some (j, after) :=
              readValue_of_steps _ hj (by omega)
            cases hs : skipSpace after with
            | nil => simp [fieldsFrom, hq, ht, hc, hj, hs] at h
            | cons b next =>
              have hnext := length_of_skipSpace hs
              by_cases hcomma : b = 0x2c
              · subst hcomma
                simp only [fieldsFrom, hq, ht, hc, hj, hs, Option.bind_eq_bind, Option.bind_some,
                  Option.pure_def] at h
                obtain ⟨rfl, hwhole⟩ := Prod.mk.inj h
                obtain ⟨rest, hend, he⟩ := ih (Prod.ext rfl hwhole)
                exact ⟨rest, hend, (ReadsEntries.more hn hj' hs
                  (readEntries_of_steps _ he (by omega))).readEntries⟩
              · by_cases hclose : b = 0x7d
                · subst hclose
                  simp only [fieldsFrom, hq, ht, hc, hj, hs, Option.bind_eq_bind, Option.bind_some,
                    Option.pure_def] at h
                  obtain ⟨rfl, hend⟩ := Prod.mk.inj h
                  exact ⟨next, hend, (ReadsEntries.last hn hj' hs).readEntries⟩
                · simp [fieldsFrom, hq, ht, hc, hj, hs, hcomma, hclose] at h

/-! ### Texts as a whole -/

theorem single_or_nothing (bytes : Bytes) (ho : ∀ inner, skipSpace bytes ≠ 0x7b :: inner)
    (ha : ∀ inner, skipSpace bytes ≠ 0x5b :: inner) :
    (∃ j whole, readDocument bytes = .single j whole) ∨ readDocument bytes = .nothing := by
  unfold readDocument
  split
  case h_1 inner hs => exact absurd hs (ho inner)
  case h_2 inner hs => exact absurd hs (ha inner)
  case h_3 =>
    split
    · exact .inl ⟨_, _, rfl⟩
    · exact .inr rfl

variable {j : Json}

theorem read?_eq_some_iff :
    read? bytes = some j ↔
      ∃ rest, readValue (steps bytes) bytes = some (j, rest) ∧ ended rest = true := by
  constructor
  · intro h
    obtain ⟨⟨j, rest⟩, hj, h⟩ := Option.bind_eq_some_iff.mp h
    obtain ⟨hend, h⟩ := Option.ite_none_right_eq_some.mp h
    cases h
    exact ⟨rest, hj, hend⟩
  · rintro ⟨rest, hj, hend⟩
    simp only [read?, hj, Option.bind_eq_bind, Option.bind_some]
    exact if_pos hend

theorem readDocument_bracket {inner : Bytes} (hs : skipSpace bytes = 0x5b :: inner)
    (h : readValue (fuel + 1) bytes = some (j, rest)) (hend : ended rest = true) :
    readDocument bytes = j.document := by
  rcases cases_of_bracket hs h with ⟨hb, rfl⟩ | ⟨b, more, items, hb, hne, rfl, hi⟩
  · simp only [readDocument, hs, hb, hend, document]
  · have hitems : itemsFrom (steps (b :: more)) (b :: more) = (items, ended rest) :=
      itemsFrom_of_readItems hi (by simp only [steps]; omega)
    simp only [readDocument, hs, hb]
    split
    · rename_i heq
      exact absurd (List.cons.inj heq).1 hne
    · rw [hitems, hend]
      rfl

theorem readDocument_brace {inner : Bytes} (hs : skipSpace bytes = 0x7b :: inner)
    (h : readValue (fuel + 1) bytes = some (j, rest)) (hend : ended rest = true) :
    readDocument bytes = j.document := by
  rcases cases_of_brace hs h with ⟨hb, rfl⟩ | ⟨b, more, entries, hb, hne, rfl, he⟩
  · simp only [readDocument, hs, hb, hend, document]
  · have hfields : fieldsFrom (steps (b :: more)) (b :: more) = (entries, ended rest) :=
      fieldsFrom_of_readEntries he (by simp only [steps]; omega)
    simp only [readDocument, hs, hb]
    split
    · rename_i heq
      exact absurd (List.cons.inj heq).1 hne
    · rw [hfields, hend]
      rfl

theorem readDocument_eq_document (hj : j.isContainer = true) (h : read? bytes = some j) :
    readDocument bytes = j.document := by
  obtain ⟨rest, hv, hend⟩ := read?_eq_some_iff.mp h
  by_cases ha : ∃ inner, skipSpace bytes = 0x5b :: inner
  · obtain ⟨inner, hs⟩ := ha
    exact readDocument_bracket hs hv hend
  · by_cases ho : ∃ inner, skipSpace bytes = 0x7b :: inner
    · obtain ⟨inner, hs⟩ := ho
      exact readDocument_brace hs hv hend
    · have ⟨hno, _, _⟩ := readValue_unbracketed (fun inner hs => ha ⟨inner, hs⟩)
        (fun inner hs => ho ⟨inner, hs⟩) hv
      simp [hj] at hno

section

variable {inner : Bytes}

theorem readItems_of_readDocument (hs : skipSpace bytes = 0x5b :: inner)
    (h : readDocument bytes = .items items true) :
    ∃ rest, readValue (steps bytes) bytes = some (array items, rest) ∧ ended rest = true := by
  have hinner := length_of_skipSpace hs
  simp only [readDocument, hs] at h
  split at h
  · rename_i last hb
    obtain ⟨rfl, hend⟩ := Document.items.inj h
    exact ⟨last, by simp only [steps, readValue, hs, hb], hend⟩
  · rename_i hne
    cases hb : skipSpace inner with
    | nil =>
      rw [hb] at h
      cases h
    | cons b after =>
      have hmore := length_of_skipSpace hb
      have hc : b ≠ 0x5d := fun hc => hne after (hc ▸ hb)
      rw [hb] at h
      cases hi : itemsFrom (steps (b :: after)) (b :: after) with
      | mk found whole =>
        rw [hi] at h
        cases h
        obtain ⟨rest, hend, hi⟩ := readItems_of_itemsFrom hi
        have henough : 2 * (b :: after).length + 1 < 2 * bytes.length + 1 := by
          rw [List.length_cons]
          omega
        exact ⟨rest, readValue_array hs hb hc (readItems_of_steps _ hi henough), hend⟩

theorem readEntries_of_readDocument (hs : skipSpace bytes = 0x7b :: inner)
    (h : readDocument bytes = .fields entries true) :
    ∃ rest, readValue (steps bytes) bytes = some (object entries, rest) ∧ ended rest = true := by
  have hinner := length_of_skipSpace hs
  simp only [readDocument, hs] at h
  split at h
  · rename_i last hb
    obtain ⟨rfl, hend⟩ := Document.fields.inj h
    exact ⟨last, by simp only [steps, readValue, hs, hb], hend⟩
  · rename_i hne
    cases hb : skipSpace inner with
    | nil =>
      rw [hb] at h
      exact nomatch h
    | cons b after =>
      have hmore := length_of_skipSpace hb
      have hc : b ≠ 0x7d := fun hc => hne after (hc ▸ hb)
      rw [hb] at h
      cases he : fieldsFrom (steps (b :: after)) (b :: after) with
      | mk found whole =>
        rw [he] at h
        cases h
        obtain ⟨rest, hend, he⟩ := readEntries_of_fieldsFrom he
        have henough : 2 * (b :: after).length + 1 < 2 * bytes.length + 1 := by
          rw [List.length_cons]
          omega
        exact ⟨rest, readValue_object hs hb hc (readEntries_of_steps _ he henough), hend⟩

end

/-- A text is found to be an object or an array, without any fault, where it consists of that and
nowhere else. -/
theorem readDocument_eq_document_iff (hj : j.isContainer = true) :
    readDocument bytes = j.document ↔ read? bytes = some j := by
  refine ⟨fun h => ?_, readDocument_eq_document hj⟩
  rw [read?_eq_some_iff]
  by_cases ho : ∃ inner, skipSpace bytes = 0x7b :: inner
  · obtain ⟨inner, hs⟩ := ho
    cases j with
    | object entries => exact readEntries_of_readDocument hs h
    | array items =>
      simp only [readDocument, hs] at h
      split at h <;> cases h
    | _ => cases hj
  · by_cases ha : ∃ inner, skipSpace bytes = 0x5b :: inner
    · obtain ⟨inner, hs⟩ := ha
      cases j with
      | array items => exact readItems_of_readDocument hs h
      | object entries =>
        simp only [readDocument, hs] at h
        split at h <;> cases h
      | _ => cases hj
    · have hsingle := single_or_nothing bytes (fun inner hs => ho ⟨inner, hs⟩)
        (fun inner hs => ha ⟨inner, hs⟩)
      rw [h] at hsingle
      cases j with
      | array items => simp [document] at hsingle
      | object entries => simp [document] at hsingle
      | _ => cases hj

end Countersign.Json
