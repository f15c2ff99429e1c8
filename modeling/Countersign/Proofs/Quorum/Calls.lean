import Countersign.Proofs.Intent.Calldata
import Countersign.Proofs.Intent.Request
import Countersign.Proofs.Quorum.Files
import Countersign.Proofs.Quorum.Sessions
import Countersign.Proofs.Tally.Binding

/-! The call that an authorization gives. It holds the intent that was asked for, and what the
guardians have signed and what is recorded of the execution are hashes of its own bytes. -/

namespace Countersign

/-- The bytes of a call behind its selector. -/
def callArguments (calldata : Bytes) : Bytes := calldata.drop 4

theorem Intent.callArguments_calldata (I : Intent) : callArguments I.calldata = I.arguments :=
  List.drop_left' Selector.execute.length_bytes

theorem Intent.preimage_eq_of_calldata (I : Intent) (domain : Domain) :
    I.preimage (some domain) = domain.encode ++ callArguments I.calldata := by
  rw [callArguments_calldata]
  rfl

namespace Quorum

variable {q after : Quorum} {site site' : Site} {request : Request} {a : Authorization}

theorem digest_of_authorize (h : q.authorize site request = (site', after, .ok a)) :
    Intent.ofRequest request = .ok a.intent ∧ a.tally.digest = a.intent.digest (some q.domain) := by
  obtain ⟨_, _, _, _, hi, _, _, _, ht, _⟩ := authorize_eq_ok h
  refine ⟨hi, ?_⟩
  rw [ht]
  rfl

/-- What was verified for an approval are the bytes of the digest. -/
theorem verified_of_authorize (h : q.authorize site request = (site', after, .ok a)) :
    ∀ approval ∈ a.tally.approvals, Scheme.verify approval.envelope.parameterSet
      approval.envelope.publicKey a.tally.digest.bytes approval.envelope.signature = true := by
  intro approval hm
  obtain ⟨_, hd⟩ := digest_of_authorize h
  obtain ⟨_, _, _, _, _, _, _, _, ht, _⟩ := authorize_eq_ok h
  rw [hd]
  rw [ht] at hm
  exact Tally.verified_of_mem_approvals hm

/-- What is recorded of an execution are the digest that was approved and the one that the contract
computes. -/
theorem digests_of_recordExecution {txHash : String} {note : Option String} {r : ExecutionRecord}
    (h : q.recordExecution site a txHash note = (site', after, .ok r)) :
    r.digest = a.tally.digest.text ∧ r.onChainDigest = some a.intent.onChainDigest.text := by
  obtain ⟨_, _, _, _, hrec, _, _⟩ := recordExecution_eq_ok h
  rw [Journal.eq_newRecord_of_record hrec]
  exact ⟨Digest.normalForm_text a.tally.digest,
    congrArg some (Digest.normalForm_text a.intent.onChainDigest)⟩

/-- The call of an authorization is read as the intent that was asked for. Its arguments behind the
domain are what the digest is the hash of; over the bytes of that hash the signature of every
approval was verified, and whoever records the execution lists it, next to the hash of the arguments
alone. -/
theorem approved_call_is_recorded (h : q.authorize site request = (site', after, .ok a))
    (hr : request.IsStorable) :
    Intent.ofRequest request = .ok a.intent ∧ Intent.ofCalldata? a.calldata = some a.intent ∧
    a.tally.digest.bytes = Sponge.keccak256 (q.domain.encode ++ callArguments a.calldata) ∧
    (∀ approval ∈ a.tally.approvals, Scheme.verify approval.envelope.parameterSet
      approval.envelope.publicKey (Sponge.keccak256 (q.domain.encode ++ callArguments a.calldata))
      approval.envelope.signature = true) ∧
    ∀ q' site₁ txHash note site₂ after' r,
      recordExecution q' site₁ a txHash note = (site₂, after', .ok r) →
        r.digest =
          Hex.prefixed (Sponge.keccak256 (q.domain.encode ++ callArguments a.calldata)) ∧
        r.onChainDigest = some (Hex.prefixed (Sponge.keccak256 (callArguments a.calldata))) := by
  obtain ⟨hi, hd⟩ := digest_of_authorize h
  have hbytes : a.tally.digest.bytes =
      Sponge.keccak256 (q.domain.encode ++ callArguments a.calldata) := by
    rw [hd, Intent.digest, Intent.preimage_eq_of_calldata]
    rfl
  have honchain : a.intent.onChainDigest.text =
      Hex.prefixed (Sponge.keccak256 (callArguments a.calldata)) := by
    rw [Authorization.calldata, Intent.callArguments_calldata]
    rfl
  refine ⟨hi, Intent.ofCalldata?_eq_some_iff.mpr ⟨rfl, hr.length_data hi⟩, hbytes,
    fun approval hm => ?_, fun q' site₁ txHash note site₂ after' r hrec => ?_⟩
  · rw [← hbytes]
    exact verified_of_authorize h approval hm
  · obtain ⟨hdigest, hother⟩ := digests_of_recordExecution hrec
    rw [hdigest, hother, honchain, Digest.text, hbytes]
    exact ⟨rfl, rfl⟩

/-! ### One call -/

/-- A call is approved and recorded. -/
theorem ann_call_is_recorded : ∃ site site' after a, ∃ (site₂ : Site) (after' : Quorum),
    ∃ r : ExecutionRecord,
    annQuorum.authorize site Sessions.emptyRequest = (site', after, .ok a) ∧
    a.tally.approvals ≠ [] ∧
    after.recordExecution site' a "0x1" none = (site₂, after', .ok r) ∧
    Intent.ofCalldata? a.calldata = some Sessions.emptyIntent ∧
    r.digest =
      Hex.prefixed (Sponge.keccak256 (annQuorum.domain.encode ++ callArguments a.calldata)) ∧
    r.onChainDigest = some (Hex.prefixed (Sponge.keccak256 (callArguments a.calldata))) := by
  let envelope := (annForged (Sessions.emptyIntent.digest (some annQuorum.domain))).encodeTextual
  let site : Site := ⟨smallFiles "" [] envelope, fun _ => Moment.epoch, 0, [], []⟩
  obtain ⟨site', a, ha, hdisk, _, hintent, _, happrovals, hmet⟩ :=
    exists_ann_authorize site (q := annQuorum) Sessions.ofRequest_emptyRequest rfl
      (fun _ _ _ => rfl) rfl rfl (.refl "e") rfl (.refl "j")
  obtain ⟨other, journal, hrecord, _⟩ := smallFiles.exists_record "" [] envelope
    a.tally.digest.text (a.details "0x1" none) site'.now.1
  have hr := recordExecution_of_record site' (q := annQuorum)
    hmet (by rw [hdisk]; exact hrecord)
  have hstorable : Sessions.emptyRequest.IsStorable := fun _ hs => absurd hs (Option.not_mem_none _)
  obtain ⟨_, hcall, _, _, hrecorded⟩ := approved_call_is_recorded ha hstorable
  obtain ⟨hdigest, honchain⟩ := hrecorded _ _ _ _ _ _ _ hr
  exact ⟨site, site', _, a, _, _, _, ha, happrovals, hr, hintent ▸ hcall, hdigest, honchain⟩

end Quorum
end Countersign
