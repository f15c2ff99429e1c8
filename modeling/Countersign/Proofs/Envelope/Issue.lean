import Countersign.Envelope.Issue
import Countersign.Proofs.Envelope.Inbox
import Countersign.Proofs.Key.Scheme
import Countersign.Proofs.Except
import Countersign.Proofs.Tally.Counting

/-! Envelopes that are made with a guardian's own keys. Each is an approval of the digest for which
it was made, as far as the signature scheme keeps its word. -/

namespace Countersign

namespace Envelope

variable {keys : Scheme.KeyPair} {d : Digest} {metadata : Option Metadata} {randomness : Bytes}
  {e : Envelope}

theorem issue_eq_ok (h : issue keys d metadata randomness = .ok e) : ∃ level signature,
    Scheme.level? keys.parameterSet = some level ∧
    keys.publicKey.length = level.publicKeyBytes ∧
    Scheme.publicKeyOf keys.parameterSet keys.secretKey = .ok keys.publicKey ∧
    Scheme.sign keys.parameterSet keys.secretKey d.bytes randomness = .ok signature ∧
    e = ⟨keys.parameterSet, d.text, keys.publicKey, signature, metadata⟩ := by
  unfold issue at h
  obtain ⟨level, hlevel, h⟩ := exists_of_bind_eq_ok h
  obtain ⟨_, hlength, h⟩ := exists_of_bind_eq_ok h
  obtain ⟨derived, hderived, h⟩ := exists_of_bind_eq_ok h
  obtain ⟨hsame, h⟩ := of_check_eq_ok h
  obtain ⟨signature, hsign, h⟩ := exists_of_bind_eq_ok h
  obtain rfl := Except.ok.inj h
  rw [ne_eq, not_not] at hsame
  exact ⟨level, signature, Scheme.level_eq_ok hlevel, Scheme.of_checkLength hlength,
    hsame ▸ hderived, hsign, rfl⟩

theorem issue_of_sign {level : Lattice.Level} {signature : Bytes}
    (hl : Scheme.level? keys.parameterSet = some level)
    (hk : keys.publicKey.length = level.publicKeyBytes)
    (hp : Scheme.publicKeyOf keys.parameterSet keys.secretKey = .ok keys.publicKey)
    (hs : Scheme.sign keys.parameterSet keys.secretKey d.bytes randomness = .ok signature) :
    issue keys d metadata randomness =
      .ok ⟨keys.parameterSet, d.text, keys.publicKey, signature, metadata⟩ := by
  simp only [issue, Scheme.level_of_level? hl, hk, Scheme.checkLength_self, hp, hs, bind,
    Except.bind, ne_eq, not_true_eq_false, if_false]
  rfl

/-- What has been issued has a signature that is verified, and lengths that depend on nothing but
the strength. -/
theorem of_issue (hs : keys.SignsValidly)
    (h : issue keys d metadata randomness = .ok e) :
    e.parameterSet = keys.parameterSet ∧ e.digest = d.text ∧ e.publicKey = keys.publicKey ∧
    e.metadata = metadata ∧
    Scheme.verify keys.parameterSet keys.publicKey d.bytes e.signature = true ∧
    e.publicKey.length ≤ 4096 ∧ e.signature.length ≤ 8192 := by
  obtain ⟨level, signature, hlevel, hkey, hderived, hsign, rfl⟩ := issue_eq_ok h
  have hverified := hs _ _ _ hderived hsign
  have hsignature := Scheme.length_of_verify hlevel hverified
  obtain ⟨hshort, _, hlong⟩ := Scheme.length_le level
  exact ⟨rfl, rfl, rfl, rfl, hverified, hkey ▸ hshort, hsignature ▸ hlong⟩

/-- Whether the texts of the metadata have a place in memory, where the length of each is a number
of eight bytes. -/
def AreStorable (metadata : Option Metadata) : Prop :=
  ∀ m ∈ metadata, ∀ s ∈ m.texts, (Text.utf8 s).length < 2 ^ 64

theorem isStorable_of_issue (hs : keys.SignsValidly)
    (h : issue keys d metadata randomness = .ok e) (hm : AreStorable metadata) :
    e.IsStorable := by
  obtain ⟨_, hdigest, _, hmetadata, _, hkey, hsignature⟩ := of_issue hs h
  have hascii : ∀ c ∈ '0' :: 'x' :: Hex.encode d.bytes, c.toNat < 128 := by
    intro c hc
    rcases List.mem_cons.mp hc with rfl | hc
    · decide
    · rcases List.mem_cons.mp hc with rfl | hc
      · decide
      · exact Hex.ascii_of_mem_encode hc
  have htext : (Text.utf8 e.digest).length = 66 := by
    rw [hdigest, Digest.text, Hex.prefixed, Text.length_utf8_of_ascii hascii, List.length_cons,
      List.length_cons, Hex.length_encode, d.length_bytes]
  exact ⟨by omega, by omega, by omega, hmetadata ▸ hm⟩

/-- The guardian's keys, of which the secret one is nobody else's. -/
def keysOf (g : Guardian) (secretKey : Bytes) : Scheme.KeyPair :=
  ⟨g.publicKey, secretKey, g.parameterSet⟩

/-- The metadata name nobody, or the guardian. -/
def NamesAtMost (metadata : Option Metadata) (g : Guardian) : Prop :=
  metadata.bind (·.guardianId) = none ∨ metadata.bind (·.guardianId) = some g.id

theorem NamesAtMost.stated {g : Guardian} (h : NamesAtMost e.metadata g)
    (hid : Text.stated? g.id = some g.id) :
    e.guardianId.bind Text.stated? = none ∨ e.guardianId.bind Text.stated? = some g.id := by
  rw [guardianId]
  rcases h with h | h <;> rw [h]
  · exact .inl rfl
  · exact .inr hid

theorem approves_of_issue {g : Guardian} {secretKey : Bytes}
    (hid : Text.stated? g.id = some g.id)
    (hs : (keysOf g secretKey).SignsValidly) (hn : NamesAtMost metadata g)
    (h : issue (keysOf g secretKey) d metadata randomness = .ok e) :
    g.Approves d e := by
  obtain ⟨hset, hdigest, hkey, hmetadata, hverified, _⟩ := of_issue hs h
  refine ⟨hkey, NamesAtMost.stated (hmetadata ▸ hn) hid, hset, Scheme.ne_nil_of_verify hverified,
    ?_, hverified⟩
  rw [hdigest]
  exact Digest.normalForm_text d

end Envelope
end Countersign
