import Countersign.Journal.Handle
import Countersign.Proofs.Intent.DigestText
import Countersign.Tally

/-! The texts under which a journal knows a digest. All that are read as the digest are one key, and
they are the ones that compare as equal to it. -/

namespace Countersign.Journal

theorem find?_of_isNamed (journal : Journal) {d : Digest} {s : String} (h : d.IsNamed s) :
    journal.find? s = journal.find? d.text := by
  rw [find?, find?, Digest.normalForm_text, show Digest.normalForm s = d.text from h]

theorem isExecuted_ofRecord? (r : Option ExecutionRecord) :
    (Replay.ofRecord? r).isExecuted = r.isSome := by
  cases r <;> rfl

/-- Reading a text as a digest, comparing it with the digest and looking it up in a journal come to
the same, whatever the case of the digits, their prefix and the blanks around them. -/
theorem texts_of_a_digest_are_one_key (s : String) (d : Digest) :
    (Digest.parse s = .ok d ↔ d.IsNamed s) ∧
    (d.IsNamed s ↔ Digest.normalForm s = d.text) ∧
    (Digest.parse s = .ok d ↔ d.IsSpelled (Text.trim s.toList)) ∧
    Digest.normalForm (Digest.normalForm s) = Digest.normalForm s ∧
    Digest.parse d.text = .ok d ∧
    (Digest.parse s = .ok d → ∀ journal : Journal,
      (∀ t, Digest.parse t = .ok d →
        journal.isExecuted s = journal.isExecuted t ∧ journal.find? s = journal.find? t) ∧
      (Replay.ofRecord? (journal.find? d.text)).isExecuted = journal.isExecuted s) := by
  have hself : d.IsNamed d.text := Digest.normalForm_text d
  refine ⟨Digest.parse_eq_ok_iff, Iff.rfl, ?_, Digest.normalForm_normalForm s,
    Digest.parse_of_isNamed hself, fun hs journal => ?_⟩
  · rw [Digest.parse_eq_ok_iff, Digest.isNamed_iff_isSpelled]
  · have hfind := journal.find?_of_isNamed (Digest.parse_eq_ok_iff.mp hs)
    refine ⟨fun t ht => ?_, ?_⟩
    · have hother := journal.find?_of_isNamed (Digest.parse_eq_ok_iff.mp ht)
      rw [isExecuted, isExecuted, hfind, hother]
      exact ⟨rfl, rfl⟩
    · rw [isExecuted, hfind, isExecuted_ofRecord?]

/-- A journal with the record of the digest whose digits are all `a`. -/
def ofSameDigits : Journal :=
  ⟨"ledger.json", [.recovered (Hex.prefixed (List.replicate 32 0xaa))]⟩

theorem capitals_find_the_record :
    let d : Digest := ⟨List.replicate 32 0xaa, rfl⟩
    let loud := String.ofList ('\n' :: '0' :: 'X' :: List.replicate 64 'A')
    let quiet := String.ofList (List.replicate 64 'a' ++ ['\u00a0'])
    Digest.parse loud = .ok d ∧ Digest.parse quiet = .ok d ∧
      ofSameDigits.isExecuted loud = ofSameDigits.isExecuted quiet ∧
      ofSameDigits.find? loud = ofSameDigits.find? quiet ∧
      (Replay.ofRecord? (ofSameDigits.find? d.text)).isExecuted = ofSameDigits.isExecuted loud ∧
      ofSameDigits.isExecuted quiet = true := by
  intro d loud quiet
  have hloud : Digest.parse loud = .ok d := by decide +kernel
  have hquiet : Digest.parse quiet = .ok d := by decide +kernel
  obtain ⟨_, _, _, _, _, hkey⟩ := texts_of_a_digest_are_one_key loud d
  obtain ⟨hsame, hstatus⟩ := hkey hloud ofSameDigits
  obtain ⟨hexecuted, hfind⟩ := hsame quiet hquiet
  exact ⟨hloud, hquiet, hexecuted, hfind, hstatus, by decide +kernel⟩

end Countersign.Journal
