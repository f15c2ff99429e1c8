import Countersign.Proofs.Intent.Preimage
import Countersign.Proofs.Quorum.Calls

/-! The function that is approved and the one that is called. The digest names the one in the
settings, and the call does not. -/

namespace Countersign

namespace Quorum

variable {q after : Quorum} {site site' : Site} {request : Request} {a : Authorization}

theorem take_calldata (a : Authorization) : a.calldata.take 4 = Selector.execute.bytes :=
  List.take_left' Selector.execute.length_bytes

/-- Where the selector is bound, the digest starts with the selector of the signature that the
settings state. The call starts with that of `executeTransaction` whatever they state, so that both
are the same only if the signature stated has the same selector. -/
theorem call_ignores_stated_function {disk : Disk} {path : String}
    (hs : Settings.load disk path = .ok q.settings) (hb : q.settings.bindsSelector = true)
    (h : q.authorize site request = (site', after, .ok a)) :
    ∃ text w, disk.readText? path = some text ∧
      Settings.Written.ofJson (Text.utf8 text) = .ok w ∧
      q.domain.selector = Selector.ofSignature w.signature ∧
      a.tally.digest.bytes = Sponge.keccak256
        (q.domain.selector.padded ++ q.domain.scope ++ callArguments a.calldata) ∧
      a.calldata.take 4 = Selector.execute.bytes ∧
      (a.calldata.take 4 = q.domain.selector.bytes ↔
        Selector.ofSignature w.signature = Selector.execute) ∧
      (w.functionSignature = none → a.calldata.take 4 = q.domain.selector.bytes) := by
  obtain ⟨text, w, htext, hw, hwritten⟩ := Settings.exists_of_load hs
  obtain ⟨_, hsignature, _⟩ := Settings.of_ofWritten hwritten
  have hselector : q.domain.selector = Selector.ofSignature w.signature :=
    congrArg Selector.ofSignature hsignature
  obtain ⟨_, hd⟩ := digest_of_authorize h
  have hbytes : a.tally.digest.bytes = Sponge.keccak256
      (q.domain.selector.padded ++ q.domain.scope ++ callArguments a.calldata) := by
    rw [hd, Intent.digest, Intent.preimage_eq_of_calldata, Domain.encode_of_selector hb]
    rfl
  have hiff : a.calldata.take 4 = q.domain.selector.bytes ↔
      Selector.ofSignature w.signature = Selector.execute := by
    rw [take_calldata, hselector]
    constructor
    · intro hsame
      exact (Selector.mk.injEq _ _ _ _).mpr hsame.symm
    · intro hsame
      rw [hsame]
  refine ⟨text, w, htext, hw, hselector, hbytes, take_calldata a, hiff, fun hnone => ?_⟩
  rw [hiff, Settings.Written.signature, hnone]
  rfl

/-! ### Another function -/

/-- Settings that state the signature of another function, as a text. -/
def transferText : String :=
  "\x7b\"chainId\":1,\"contractAddress\":\"0x0000000000000000000000000000000000000002\"," ++
    "\"functionSignature\":\"transfer(address,uint256)\",\"threshold\":1," ++
    "\"registryPath\":\"r\",\"ledgerPath\":\"j\",\"envelopeDir\":\"e\"\x7d"

def transferSettings : Settings where
  chain := 1
  contract := ⟨zeros 19 ++ [2], rfl⟩
  domainVersion := 1
  functionSignature := "transfer(address,uint256)"
  bindsSelector := true
  threshold := 1
  rosterPath := "r"
  journalPath := "j"
  envelopeDirectory := "e"
  trailPath := none

theorem exists_written_transferText : ∃ w,
    Settings.Written.ofJson (Text.utf8 transferText) = .ok w ∧
      Settings.ofWritten "" w = .ok transferSettings := by
  have h : ((Settings.Written.ofJson (Text.utf8 transferText)).toOption.bind fun w =>
      (Settings.ofWritten "" w).toOption) = some transferSettings := by decide +kernel
  obtain ⟨w, hw, hs⟩ := Option.bind_eq_some_iff.mp h
  exact ⟨w, toOption_eq_some_iff.mp hw, toOption_eq_some_iff.mp hs⟩

def transferSite : Site :=
  ⟨smallFiles transferText (Text.utf8 "[]") [], fun _ => Moment.epoch, 0, [], []⟩

def transferQuorum : Quorum := ⟨transferSettings, {}, ⟨"j", []⟩, {}⟩

theorem load_transferSite : Settings.load transferSite.disk "c" = .ok transferSettings ∧
    load transferSite "c" = (transferSite, .ok transferQuorum) := by
  obtain ⟨w, hw, hs⟩ := exists_written_transferText
  have hroster : Roster.load transferSite.disk "r" = .ok {} :=
    Roster.load_of_no_entries (Disk.IsSingle.readText? (by decide +kernel) rfl)
  exact smallFiles.load transferText (Text.utf8 "[]") [] transferSite rfl (.refl "c")
    (by decide +kernel) hw hs (.refl "r") (.refl "j") rfl hroster

theorem exists_authorize_transferQuorum : ∃ site after a,
    transferQuorum.authorize transferSite Sessions.emptyRequest = (site, after, .ok a) := by
  obtain ⟨inbox, hinbox⟩ := Envelope.Inbox.exists_load?
    (smallFiles.at?_directory transferText (Text.utf8 "[]") [] (.refl "e"))
  obtain ⟨site, a, ha, _⟩ := exists_authorize transferSite (q := transferQuorum) rfl
    Sessions.ofRequest_emptyRequest hinbox
    (smallFiles.reload _ _ _ (.refl "j"))
  exact ⟨site, _, a, ha⟩

theorem transfer_ne_execute :
    Selector.ofSignature "transfer(address,uint256)" ≠ Selector.execute := by
  decide +kernel

/-- What is approved under these settings is a transfer, and what the call names is not. -/
theorem approved_function_is_not_called : ¬ ∀ (site : Site) path site₁ q request site' after a,
    load site path = (site₁, .ok q) → q.settings.bindsSelector = true →
    q.authorize site₁ request = (site', after, .ok a) →
      a.calldata.take 4 = q.domain.selector.bytes := by
  intro h
  obtain ⟨site, after, a, ha⟩ := exists_authorize_transferQuorum
  have hsame := h _ "c" _ _ _ site after a load_transferSite.2 rfl ha
  rw [take_calldata] at hsame
  exact transfer_ne_execute ((Selector.mk.injEq _ _ _ _).mpr hsame.symm)

/-- The digest of a transfer, and a call of `executeTransaction`. -/
theorem transfer_is_called_otherwise : ∃ site after a text w,
    Settings.load transferSite.disk "c" = .ok transferQuorum.settings ∧
    transferQuorum.settings.bindsSelector = true ∧
    transferQuorum.authorize transferSite Sessions.emptyRequest = (site, after, .ok a) ∧
    transferSite.disk.readText? "c" = some text ∧
    Settings.Written.ofJson (Text.utf8 text) = .ok w ∧
    a.tally.digest.bytes = Sponge.keccak256
      ((Selector.ofSignature "transfer(address,uint256)").padded ++ transferQuorum.domain.scope ++
        callArguments a.calldata) ∧
    a.calldata.take 4 = Selector.execute.bytes ∧
    a.calldata.take 4 ≠ transferQuorum.domain.selector.bytes := by
  obtain ⟨site, after, a, ha⟩ := exists_authorize_transferQuorum
  obtain ⟨text, w, htext, hw, hstated, hdigest, htake, hiff, _⟩ :=
    call_ignores_stated_function load_transferSite.1 rfl ha
  refine ⟨site, after, a, text, w, load_transferSite.1, rfl, ha, htext, hw, hdigest, htake,
    fun hsame => ?_⟩
  exact transfer_ne_execute (hstated.trans (hiff.mp hsame))

end Quorum
end Countersign
