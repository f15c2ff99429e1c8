import Countersign.Proofs.Intent.Preimage
import Countersign.Proofs.Tally.Counting

/-! An approval counts for the one digest that its envelope names. It is lost as soon as the intent
or a field that the digest is bound to is another one. -/

namespace Countersign.Tally

variable {roster : Roster} {d : Digest}

theorem verdict_of_mem_sift {claimed : List String} {batch : List Envelope} {a : Approval}
    (h : a ∈ (sift roster d claimed batch).approvals) : a.envelope.verdict (some d) = .valid := by
  obtain ⟨_, _, hcounts⟩ := countsFor_of_mem_sift h
  exact hcounts.valid

theorem isNamed_of_mem_approvals {threshold : Nat} {replay : Replay} {batch : List Envelope}
    {a : Approval} (h : a ∈ (ofEnvelopes roster d threshold replay batch).approvals) :
    d.IsNamed a.envelope.digest :=
  (Envelope.verdict_eq_valid_iff.mp (verdict_of_mem_sift h)).1

/-- The signature of an approval has been verified over the bytes of the digest. -/
theorem verified_of_mem_approvals {threshold : Nat} {replay : Replay} {batch : List Envelope}
    {a : Approval} (h : a ∈ (ofEnvelopes roster d threshold replay batch).approvals) :
    Scheme.verify a.envelope.parameterSet a.envelope.publicKey d.bytes a.envelope.signature =
      true := by
  obtain ⟨_, _, _, _, hverified⟩ := Envelope.verdict_eq_valid_iff.mp (verdict_of_mem_sift h)
  exact hverified

theorem digest_eq_of_isNamed {d e : Digest} {s : String} (hd : d.IsNamed s) (he : e.IsNamed s) :
    d = e :=
  Digest.text_injective (Eq.trans (Eq.symm hd) he)

/-- Of one mode, what is hashed tells the intent and the bound fields. Where these differ, an
envelope that is an approval of the one digest is none of the other, whoever counts it, unless
hashing has taken two different messages to one digest. -/
theorem approval_stays_with_fields {I J : Intent} {c d : Option Domain}
    (hmode : c.map (·.bindsSelector) = d.map (·.bindsSelector)) :
    (I.preimage c = J.preimage d → I = J ∧ c.map Domain.bound = d.map Domain.bound) ∧
    (I ≠ J ∨ c.map Domain.bound ≠ d.map Domain.bound →
      (I.preimage c ≠ J.preimage d →
        Sponge.keccak256 (I.preimage c) ≠ Sponge.keccak256 (J.preimage d)) →
      ∀ (roster other : Roster) (threshold threshold' : Nat) (replay replay' : Replay)
        (batch batch' : List Envelope),
        ∀ a ∈ (ofEnvelopes roster (I.digest c) threshold replay batch).approvals,
        ∀ b ∈ (ofEnvelopes other (J.digest d) threshold' replay' batch').approvals,
          a.envelope ≠ b.envelope) := by
  refine ⟨Intent.eq_of_preimage hmode, ?_⟩
  intro hdiffer hnocollision roster other threshold threshold' replay replay' batch batch' a ha b hb
    hsame
  have hnamed := isNamed_of_mem_approvals ha
  rw [hsame] at hnamed
  have hdigest : I.digest c = J.digest d :=
    digest_eq_of_isNamed hnamed (isNamed_of_mem_approvals hb)
  have hhash : Sponge.keccak256 (I.preimage c) = Sponge.keccak256 (J.preimage d) :=
    congrArg Digest.bytes hdigest
  have hpreimage : I.preimage c = J.preimage d := by
    by_contra hne
    exact hnocollision hne hhash
  obtain ⟨hintent, hbound⟩ := Intent.eq_of_preimage hmode hpreimage
  rcases hdiffer with hne | hne
  · exact hne hintent
  · exact hne hbound

/-- Data that differ in a zero at their end alone are filled up to the same words, and still no
approval of the one intent is one of the other. -/
theorem trailing_zero_told :
    let domain : Option Domain := some ⟨1, Address.ofNumber 0xddd, 1, Selector.execute, true⟩
    let I : Intent := ⟨Address.ofNumber 0xcc, 7, [1]⟩
    let J : Intent := ⟨Address.ofNumber 0xcc, 7, [1, 0]⟩
    I ≠ J ∧ I.preimage domain ≠ J.preimage domain ∧
      ∀ (roster : Roster) (threshold : Nat) (replay : Replay) (batch : List Envelope),
        ∀ a ∈ (ofEnvelopes roster (I.digest domain) threshold replay batch).approvals,
        ∀ b ∈ (ofEnvelopes roster (J.digest domain) threshold replay batch).approvals,
          a.envelope ≠ b.envelope := by
  intro domain I J
  have hne : I ≠ J := by decide +kernel
  have hhash : Sponge.keccak256 (I.preimage domain) ≠ Sponge.keccak256 (J.preimage domain) := by
    decide +kernel
  obtain ⟨htold, hstays⟩ := approval_stays_with_fields (I := I) (J := J) (c := domain)
    (d := domain) rfl
  refine ⟨hne, fun h => hne (htold h).1, ?_⟩
  intro roster threshold replay batch
  exact hstays (.inl hne) (fun _ => hhash) roster roster threshold threshold replay replay batch batch

end Countersign.Tally
