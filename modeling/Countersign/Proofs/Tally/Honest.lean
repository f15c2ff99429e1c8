import Countersign.Proofs.Disk.Paths
import Countersign.Proofs.Envelope.Issue
import Countersign.Proofs.Key.Evaluation
import Countersign.Proofs.Setup.Naming

/-! Honest guardians are counted. What stands beside a guardian's envelope, in the directory or in
the order in which the envelopes are found, does not keep it from counting. -/

namespace Countersign

theorem Roster.isTrimmed_of_ofEntries {entries : List GuardianEntry} {roster : Roster}
    (h : ofEntries entries = .ok roster) :
    Tally.IsUsable roster ∧ ∀ g ∈ roster.guardians, g.IsTrimmed := by
  obtain ⟨guardians, hfound, hroster⟩ := exists_of_bind_eq_ok h
  refine ⟨Tally.isUsable_of_ofGuardians hroster, fun g hg => ?_⟩
  rw [(ofGuardians_eq_ok hroster).2.1] at hg
  exact GuardianEntry.isTrimmed_of_guardians hfound g (List.mem_filter.mp hg).1

namespace Tally

variable {roster : Roster} {g : Guardian} {d : Digest} {e : Envelope}

theorem IsUsable.mem_approvingIds (hr : IsUsable roster) (hg : g ∈ roster.guardians)
    {batch : List Envelope} (he : e ∈ batch) (h : g.Approves d e) (threshold : Nat)
    (replay : Replay) : g.id ∈ (ofEnvelopes roster d threshold replay batch).approvingIds := by
  obtain ⟨a, ha, rfl⟩ := hr.exists_approval hg List.not_mem_nil he h
  exact List.mem_map_of_mem ha

open Envelope (Inbox Format NamesAtMost AreStorable issue keysOf)

/-- Of a roster that was read from entries, every guardian who takes part is found behind his key,
whether he is named with it or not. What he signs with his keys is counted for him as soon as the
envelope stands as a regular file in the directory, in one of the two forms and beside whatever
other entries. -/
theorem honest_guardian_is_counted {entries : List GuardianEntry}
    (hroster : Roster.ofEntries entries = .ok roster) (hg : g ∈ roster.guardians) :
    (∀ e : Envelope, e.publicKey = g.publicKey → NamesAtMost e.metadata g →
      roster.behind? e = some g) ∧
    ∀ secretKey d metadata randomness e, NamesAtMost metadata g →
      (keysOf g secretKey).SignsValidly →
      issue (keysOf g secretKey) d metadata randomness = .ok e →
      ∀ (disk : Disk) directory place name number (format : Format),
        (format = .cbor → AreStorable metadata) →
        disk.resolve true directory = .ok (place, some .directory) →
        disk.node? (place ++ [name]) = some (.file number (format.encode e)) →
        ∃ inbox, Inbox.load? disk directory = some inbox ∧ ∀ threshold replay,
          g.id ∈ (ofEnvelopes roster d threshold replay inbox.envelopes).approvingIds := by
  obtain ⟨husable, htrimmed⟩ := Roster.isTrimmed_of_ofEntries hroster
  have hid := htrimmed g hg
  refine ⟨fun e hkey hname => husable.behind?_eq_some_iff.mpr ⟨hg, hkey, hname.stated hid⟩,
    fun secretKey d metadata randomness e hname hvalid hissue disk directory place name number
      format hstorable hdirectory hnode => ?_⟩
  have happroves := Envelope.approves_of_issue hid hvalid hname hissue
  have hdecode : format.decode (format.encode e) = .ok e :=
    Format.decode_encode fun hf => Envelope.isStorable_of_issue hvalid hissue (hstorable hf)
  obtain ⟨inbox, hload, hmem⟩ := Inbox.exists_load?_mem hdirectory hnode hdecode
  exact ⟨inbox, hload, husable.mem_approvingIds hg hmem happroves⟩

end Tally

/-! ### In bad company -/

/-- The guardian whose secret vectors are zero. -/
def ann : Guardian where
  id := "ann"
  publicKey := Lattice.zeroKey .mlDsa44 (zeros 32)
  parameterSet := 0

def annSecret : Bytes := Lattice.zeroSecret .mlDsa44 (zeros 32)

theorem signsValidly_ann : (Envelope.keysOf ann annSecret).SignsValidly :=
  Scheme.signsValidly_zero rfl (length_zeros 32)

theorem length_ann_publicKey : ann.publicKey.length = Lattice.Level.mlDsa44.publicKeyBytes :=
  Lattice.length_zeroKey (length_zeros 32)

/-- An envelope that he has issued. -/
theorem exists_issued (metadata : Option Metadata) : ∃ e,
    Envelope.issue (Envelope.keysOf ann annSecret) ⟨zeros 32, length_zeros 32⟩ metadata
      Lattice.luckyRandomness = .ok e := by
  obtain ⟨signature, hsign⟩ := Lattice.exists_lucky_signature
  have hlevel : Scheme.level? ann.parameterSet = some .mlDsa44 := rfl
  have hseed := length_zeros 32
  have hkey := Scheme.publicKeyOf_zeroSecret hlevel hseed Lattice.size_of_mem_publicMatrix
  exact ⟨_, Envelope.issue_of_sign hlevel length_ann_publicKey hkey
    (Scheme.sign_of_sign? hlevel hseed hsign)⟩

/-- His entry, where the name has blanks around it. -/
def annEntry : GuardianEntry where
  id := some " ann\n"
  publicKey := some (Hex.prefixed ann.publicKey)
  parameterSet := some 0
  weight := none
  revoked := none

def annRoster : Roster := ⟨[ann], [("ann", 0)], [(ann.publicKey, 0)]⟩

theorem ofEntries_annEntry : Roster.ofEntries [annEntry] = .ok annRoster := by
  have hstated : Text.stated? " ann\n" = some "ann" := by decide +kernel
  have hkey : (Text.trim (Hex.prefixed ann.publicKey).toList).isEmpty = false := by
    rw [Hex.trim_prefixed]
    rfl
  have hann : annEntry.guardian 0 = .ok ann := by
    simp only [GuardianEntry.guardian, annEntry, Option.bind_some, hstated, hkey,
      Bool.false_eq_true, if_false, KeyEncoding.decode_prefixed]
    rfl
  simp only [Roster.ofEntries, GuardianEntry.guardians, hann]
  rfl

/-- A directory with a forged envelope of the guardian, one that is cut short, a link and an empty
file in front of another entry. -/
def badCompany (forged cut content : Bytes) : Disk where
  nodes := [(["e"], .directory), (["e", "a"], .file 0 forged), (["e", "b"], .file 1 cut),
    (["e", "c"], .link "a"), (["e", "d"], .file 2 []), (["e", "z"], .file 3 content)]
  made := 4

/-- Whatever stands in front, the last entry counts. -/
theorem ann_is_counted : Roster.ofEntries [annEntry] = .ok annRoster ∧
    (Envelope.keysOf ann annSecret).SignsValidly ∧
    (∃ d randomness e, Envelope.issue (Envelope.keysOf ann annSecret) d
      (some { guardianId := some "ann" }) randomness = .ok e) ∧
    ∀ d randomness e,
      Envelope.issue (Envelope.keysOf ann annSecret) d (some { guardianId := some "ann" })
        randomness = .ok e → ∀ format : Envelope.Format,
        ∃ inbox, Envelope.Inbox.load? (badCompany { e with signature := [7] }.encodeTextual
            (e.encodeBinary.take 40) (format.encode e)) "e" = some inbox ∧
          "ann" ∈ (Tally.ofEnvelopes annRoster d 1 .fresh inbox.envelopes).approvingIds := by
  refine ⟨ofEntries_annEntry, signsValidly_ann, ⟨_, _, exists_issued _⟩,
    fun d randomness e hissue format => ?_⟩
  have hstorable : Envelope.AreStorable (some { guardianId := some "ann" }) := by
    intro m hm s hs
    obtain rfl := Option.mem_some.mp hm
    obtain rfl := List.mem_singleton.mp hs
    decide
  have hresolve : (badCompany { e with signature := [7] }.encodeTextual (e.encodeBinary.take 40)
      (format.encode e)).resolve true "e" = .ok (["e"], some .directory) :=
    Disk.IsSingle.resolve (by decide +kernel) rfl (by simp)
  have hnode : (badCompany { e with signature := [7] }.encodeTextual (e.encodeBinary.take 40)
      (format.encode e)).node? (["e"] ++ ["z"]) = some (.file 3 (format.encode e)) := rfl
  obtain ⟨_, hcounted⟩ :=
    Tally.honest_guardian_is_counted ofEntries_annEntry (List.mem_singleton_self ann)
  obtain ⟨inbox, hload, hall⟩ := hcounted annSecret d _ randomness e (.inr rfl) signsValidly_ann
    hissue _ _ _ _ _ format (fun _ => hstorable) hresolve hnode
  exact ⟨inbox, hload, hall 1 .fresh⟩

end Countersign
