import Countersign.Proofs.Intent.DigestText
import Countersign.Proofs.Setup.Roster
import Countersign.Proofs.Tally.Sifting

/-! A tally counts exactly the guardians for whom some envelope is an approval. Which ones these
are depends on the envelopes as a set: no order, repetition or further envelope takes one away. -/

namespace Countersign

/-- The envelope carries the guardian's valid signature over the digest, under no other name. -/
structure Guardian.Approves (g : Guardian) (d : Digest) (e : Envelope) : Prop where
  publicKey : e.publicKey = g.publicKey
  name : e.guardianId.bind Text.stated? = none ∨ e.guardianId.bind Text.stated? = some g.id
  parameterSet : e.parameterSet = g.parameterSet
  signature : e.signature ≠ []
  digest : d.IsNamed e.digest
  verified : Scheme.verify g.parameterSet g.publicKey d.bytes e.signature = true

instance (g : Guardian) (d : Digest) (e : Envelope) : Decidable (g.Approves d e) :=
  decidable_of_iff
    (e.publicKey = g.publicKey ∧
      (e.guardianId.bind Text.stated? = none ∨ e.guardianId.bind Text.stated? = some g.id) ∧
      e.parameterSet = g.parameterSet ∧ e.signature ≠ [] ∧ d.IsNamed e.digest ∧
      Scheme.verify g.parameterSet g.publicKey d.bytes e.signature = true)
    ⟨fun ⟨hk, hn, hp, hs, hd, hv⟩ => ⟨hk, hn, hp, hs, hd, hv⟩,
      fun ⟨hk, hn, hp, hs, hd, hv⟩ => ⟨hk, hn, hp, hs, hd, hv⟩⟩

theorem Envelope.verdictAlone_eq_valid_iff {e : Envelope} {d : Digest} (h : d.IsNamed e.digest) :
    e.verdictAlone = .valid ↔ e.signature ≠ [] ∧ e.publicKey ≠ [] ∧
      Scheme.isSupported e.parameterSet = true ∧
      Scheme.verify e.parameterSet e.publicKey d.bytes e.signature = true := by
  simp only [Envelope.verdictAlone, Digest.parse_of_isNamed h]
  by_cases hs : e.signature = []
  · simp [hs]
  · by_cases hk : e.publicKey = []
    · simp [hs, hk]
    · by_cases hp : Scheme.isSupported e.parameterSet = true
      · simp [hs, hk, hp]
      · simp [hs, hk, hp]

theorem Envelope.verdict_eq_valid_iff {e : Envelope} {d : Digest} :
    e.verdict (some d) = .valid ↔ d.IsNamed e.digest ∧ e.signature ≠ [] ∧ e.publicKey ≠ [] ∧
      Scheme.isSupported e.parameterSet = true ∧
      Scheme.verify e.parameterSet e.publicKey d.bytes e.signature = true := by
  unfold Envelope.verdict
  by_cases hd : d.IsNamed e.digest
  · have hblank : (Text.trim e.digest.toList).isEmpty = false := by
      simpa using Digest.not_blank_of_isNamed hd
    simp [hblank, hd, Envelope.verdictAlone_eq_valid_iff hd]
  · by_cases hblank : (Text.trim e.digest.toList).isEmpty = true
    · simp [hblank, hd]
    · simp [hblank, hd]

namespace Tally

/-- What a tally relies on in its roster. -/
structure IsUsable (roster : Roster) : Prop extends roster.IsIndexed where
  complete : ∀ g ∈ roster.guardians, g.IsComplete

theorem isUsable_of_ofGuardians {guardians : List Guardian} {roster : Roster}
    (h : Roster.ofGuardians guardians = .ok roster) : IsUsable roster := by
  obtain ⟨hi, _, hc⟩ := Roster.ofGuardians_eq_ok h
  exact ⟨hi, hc⟩

variable {roster : Roster} {d : Digest}

theorem IsUsable.countsFor_iff (hr : IsUsable roster) {e : Envelope} {g : Guardian} :
    CountsFor roster d e g ↔ g ∈ roster.guardians ∧ g.Approves d e := by
  constructor
  · rintro ⟨hb, hset, hv⟩
    obtain ⟨hm, hkey, hname⟩ := hr.behind?_eq_some_iff.mp hb
    obtain ⟨hd, hs, _, _, hver⟩ := Envelope.verdict_eq_valid_iff.mp hv
    exact ⟨hm, hkey, hname, hset.symm, hs, hd, by rw [hset, ← hkey]; exact hver⟩
  · rintro ⟨hm, ha⟩
    have hg := hr.complete g hm
    refine ⟨hr.behind?_eq_some_iff.mpr ⟨hm, ha.publicKey, ha.name⟩, ha.parameterSet.symm, ?_⟩
    apply Envelope.verdict_eq_valid_iff.mpr
    rw [ha.publicKey, ha.parameterSet]
    exact ⟨ha.digest, ha.signature, hg.publicKey, hg.parameterSet, ha.verified⟩

theorem IsUsable.approver_eq_ok_iff (hr : IsUsable roster) {claimed : List String} {e : Envelope}
    {g : Guardian} :
    approver roster d claimed e = .ok g ↔
      g ∈ roster.guardians ∧ g.id ∉ claimed ∧ g.Approves d e := by
  rw [Tally.approver_eq_ok_iff, hr.countsFor_iff]
  exact and_left_comm

theorem IsUsable.approval_of_mem_sift (hr : IsUsable roster) {claimed : List String}
    {batch : List Envelope} {a : Approval} (h : a ∈ (sift roster d claimed batch).approvals) :
    a.guardian ∈ roster.guardians ∧ a.guardian.id ∉ claimed ∧ a.envelope ∈ batch ∧
      a.guardian.Approves d a.envelope := by
  obtain ⟨he, hc, hcounts⟩ := countsFor_of_mem_sift h
  obtain ⟨hm, happ⟩ := hr.countsFor_iff.mp hcounts
  exact ⟨hm, hc, he, happ⟩

/-- An envelope that is refused, whatever it claims, does not stand in the way of a later one. -/
theorem IsUsable.exists_approval (hr : IsUsable roster) {claimed : List String}
    {batch : List Envelope} {g : Guardian} {e : Envelope} (hg : g ∈ roster.guardians)
    (hc : g.id ∉ claimed) (he : e ∈ batch) (happ : g.Approves d e) :
    ∃ a ∈ (sift roster d claimed batch).approvals, a.guardian = g := by
  induction batch generalizing claimed with
  | nil => simp at he
  | cons first rest ih =>
    cases ha : approver roster d claimed first with
    | error reason =>
      rw [sift_of_error ha]
      rcases List.mem_cons.mp he with rfl | he
      · rw [hr.approver_eq_ok_iff.mpr ⟨hg, hc, happ⟩] at ha
        simp at ha
      · exact ih hc he
    | ok other =>
      rw [sift_of_ok ha]
      -- the first envelope counts for this guardian, or leaves the name unclaimed
      by_cases hid : g.id = other.id
      · have hm := (hr.approver_eq_ok_iff.mp ha).1
        exact ⟨⟨other, first⟩, List.mem_cons_self, (hr.eq_of_id hg hm hid).symm⟩
      · rcases List.mem_cons.mp he with rfl | he
        · have hself := hr.approver_eq_ok_iff.mpr ⟨hg, hc, happ⟩
          rw [ha] at hself
          exact absurd (congrArg Guardian.id (Except.ok.inj hself)).symm hid
        · have hc' : g.id ∉ other.id :: claimed := by simp [hid, hc]
          obtain ⟨a, hm, hag⟩ := ih hc' he
          exact ⟨a, List.mem_cons_of_mem _ hm, hag⟩

theorem IsUsable.pairwise_sift (hr : IsUsable roster) (claimed : List String)
    (batch : List Envelope) :
    (sift roster d claimed batch).approvals.Pairwise
      (fun a b => a.guardian.id ≠ b.guardian.id ∧ a.guardian.publicKey ≠ b.guardian.publicKey) := by
  induction batch generalizing claimed with
  | nil => simp [sift]
  | cons e rest ih =>
    cases ha : approver roster d claimed e with
    | error reason =>
      rw [sift_of_error ha]
      exact ih claimed
    | ok g =>
      rw [sift_of_ok ha]
      refine List.pairwise_cons.mpr ⟨fun b hb => ?_, ih (g.id :: claimed)⟩
      have hg := (hr.approver_eq_ok_iff.mp ha).1
      obtain ⟨hm, hc, _, _⟩ := hr.approval_of_mem_sift hb
      have hid : g.id ≠ b.guardian.id := fun h => hc (by simp [h])
      exact ⟨hid, fun hkey => hid (congrArg Guardian.id (hr.eq_of_publicKey hg hm hkey))⟩

theorem IsUsable.nodup_guardians_sift (hr : IsUsable roster) (claimed : List String)
    (batch : List Envelope) :
    ((sift roster d claimed batch).approvals.map (·.guardian)).Nodup := by
  rw [List.Nodup, List.pairwise_map]
  exact (hr.pairwise_sift claimed batch).imp fun hab heq => hab.1 (congrArg Guardian.id heq)

/-- The guardians who take part and for whom one of the envelopes is an approval. -/
def approvers (guardians : List Guardian) (d : Digest) (batch : List Envelope) : List Guardian :=
  guardians.filter fun g => !g.revoked && decide (∃ e ∈ batch, g.Approves d e)

theorem mem_approvers {guardians : List Guardian} {batch : List Envelope} {g : Guardian} :
    g ∈ approvers guardians d batch ↔
      g ∈ guardians ∧ g.revoked = false ∧ ∃ e ∈ batch, g.Approves d e := by
  simp [approvers]

theorem approvers_mono (guardians : List Guardian) {batch more : List Envelope}
    (h : batch ⊆ more) : (approvers guardians d batch).Sublist (approvers guardians d more) := by
  apply List.monotone_filter_right
  intro g hg
  simp only [Bool.and_eq_true, decide_eq_true_eq] at hg ⊢
  obtain ⟨hr, e, he, happ⟩ := hg
  exact ⟨hr, e, h he, happ⟩

theorem approvers_congr (guardians : List Guardian) {batch other : List Envelope}
    (h : ∀ e, e ∈ batch ↔ e ∈ other) :
    approvers guardians d batch = approvers guardians d other := by
  simp [approvers, h]

section

variable {guardians : List Guardian} (h : Roster.ofGuardians guardians = .ok roster)
include h

/-- As a set, the guardians of the approvals are those for whom some envelope is one. -/
theorem guardians_perm_approvers (threshold : Nat) (replay : Replay) (batch : List Envelope) :
    ((ofEnvelopes roster d threshold replay batch).approvals.map (·.guardian)).Perm
      (approvers guardians d batch) := by
  have hr := isUsable_of_ofGuardians h
  have hg := (Roster.ofGuardians_eq_ok h).2.1
  have hnodup : (approvers guardians d batch).Nodup := by
    have hall := hr.nodup_guardians
    rw [hg] at hall
    have hsub : (approvers guardians d batch).Sublist (guardians.filter (!·.revoked)) := by
      apply List.monotone_filter_right
      intro g hb
      simp only [Bool.and_eq_true] at hb
      exact hb.1
    exact hall.sublist hsub
  apply (List.perm_ext_iff_of_nodup (hr.nodup_guardians_sift [] batch) hnodup).mpr
  intro g
  rw [mem_approvers, List.mem_map]
  constructor
  · rintro ⟨a, ha, rfl⟩
    obtain ⟨hm, _, he, happ⟩ := hr.approval_of_mem_sift ha
    rw [hg, List.mem_filter] at hm
    exact ⟨hm.1, by simpa using hm.2, a.envelope, he, happ⟩
  · rintro ⟨hm, hrev, e, he, happ⟩
    have hmem : g ∈ roster.guardians := by
      rw [hg, List.mem_filter]
      exact ⟨hm, by simp [hrev]⟩
    obtain ⟨a, ha, hag⟩ := hr.exists_approval hmem List.not_mem_nil he happ
    exact ⟨a, ha, hag⟩

theorem ids_perm_approvers (threshold : Nat) (replay : Replay) (batch : List Envelope) :
    (ofEnvelopes roster d threshold replay batch).approvingIds.Perm
      ((approvers guardians d batch).map (·.id)) := by
  have hp := (guardians_perm_approvers h (d := d) threshold replay batch).map (·.id)
  rw [List.map_map] at hp
  exact hp

theorem length_approvals (threshold : Nat) (replay : Replay) (batch : List Envelope) :
    (ofEnvelopes roster d threshold replay batch).approvals.length =
      (approvers guardians d batch).length := by
  have hp := (guardians_perm_approvers h (d := d) threshold replay batch).length_eq
  simpa using hp

theorem isMet_iff (threshold : Nat) (replay : Replay) (batch : List Envelope) :
    (ofEnvelopes roster d threshold replay batch).isMet = true ↔
      threshold ≤ (approvers guardians d batch).length ∧ replay.isExecuted = false := by
  have hl := length_approvals h (d := d) threshold replay batch
  unfold isMet
  rw [hl]
  simp [ofEnvelopes]

end

/-- The decision of a quorum. The guardians counted are exactly those who take part and have an
approving envelope in the batch, each once and under one key; the threshold is met when there are
enough of them and the intent has not been executed. So neither order nor repetition matters, and
further envelopes take no approval away. -/
theorem ofEnvelopes_counts_exactly {guardians : List Guardian} {roster : Roster}
    (h : Roster.ofGuardians guardians = .ok roster) (d : Digest) (threshold : Nat)
    (replay : Replay) :
    (∀ batch : List Envelope,
      (∀ id, id ∈ (ofEnvelopes roster d threshold replay batch).approvingIds ↔
        ∃ g ∈ guardians, g.revoked = false ∧ g.id = id ∧ ∃ e ∈ batch, g.Approves d e) ∧
      (∀ a ∈ (ofEnvelopes roster d threshold replay batch).approvals,
        a.guardian ∈ guardians ∧ a.guardian.revoked = false ∧ a.envelope ∈ batch ∧
          a.guardian.Approves d a.envelope) ∧
      (ofEnvelopes roster d threshold replay batch).approvals.Pairwise
        (fun a b => a.guardian.id ≠ b.guardian.id ∧ a.guardian.publicKey ≠ b.guardian.publicKey) ∧
      ((ofEnvelopes roster d threshold replay batch).isMet = true ↔
        threshold ≤ (approvers guardians d batch).length ∧ replay.isExecuted = false)) ∧
    (∀ batch other : List Envelope, (∀ e, e ∈ batch ↔ e ∈ other) →
      (ofEnvelopes roster d threshold replay batch).approvingIds.Perm
        (ofEnvelopes roster d threshold replay other).approvingIds ∧
      (ofEnvelopes roster d threshold replay batch).shortfall =
        (ofEnvelopes roster d threshold replay other).shortfall ∧
      (ofEnvelopes roster d threshold replay batch).isMet =
        (ofEnvelopes roster d threshold replay other).isMet) ∧
    ∀ batch more : List Envelope, batch ⊆ more →
      (ofEnvelopes roster d threshold replay batch).approvingIds ⊆
        (ofEnvelopes roster d threshold replay more).approvingIds ∧
      ((ofEnvelopes roster d threshold replay batch).isMet = true →
        (ofEnvelopes roster d threshold replay more).isMet = true) := by
  have hr := isUsable_of_ofGuardians h
  have hg := (Roster.ofGuardians_eq_ok h).2.1
  refine ⟨fun batch => ⟨fun id => ?_, fun a ha => ?_, hr.pairwise_sift [] batch,
    isMet_iff h threshold replay batch⟩, fun batch other hset => ?_, fun batch more hsub => ?_⟩
  · rw [(ids_perm_approvers h threshold replay batch).mem_iff, List.mem_map]
    constructor
    · rintro ⟨g, hm, rfl⟩
      obtain ⟨hm, hrev, he⟩ := mem_approvers.mp hm
      exact ⟨g, hm, hrev, rfl, he⟩
    · rintro ⟨g, hm, hrev, rfl, he⟩
      exact ⟨g, mem_approvers.mpr ⟨hm, hrev, he⟩, rfl⟩
  · obtain ⟨hm, _, he, happ⟩ := hr.approval_of_mem_sift ha
    rw [hg, List.mem_filter] at hm
    exact ⟨hm.1, by simpa using hm.2, he, happ⟩
  · have heq := approvers_congr (d := d) guardians hset
    have hids := ids_perm_approvers h (d := d) threshold replay batch
    rw [heq] at hids
    have hmet := isMet_iff h (d := d) threshold replay batch
    rw [heq, ← isMet_iff h threshold replay other] at hmet
    have hlen := length_approvals h (d := d) threshold replay batch
    rw [heq, ← length_approvals h threshold replay other] at hlen
    refine ⟨hids.trans (ids_perm_approvers h threshold replay other).symm, ?_,
      Bool.eq_iff_iff.mpr hmet⟩
    simp only [shortfall, hlen]
    rfl
  · have hmono := approvers_mono (d := d) guardians hsub
    refine ⟨fun id hid => ?_, fun hmet => ?_⟩
    · rw [(ids_perm_approvers h threshold replay batch).mem_iff] at hid
      rw [(ids_perm_approvers h threshold replay more).mem_iff]
      exact (hmono.map _).subset hid
    · obtain ⟨hle, hex⟩ := (isMet_iff h threshold replay batch).mp hmet
      exact (isMet_iff h threshold replay more).mpr ⟨hle.trans hmono.length_le, hex⟩

/-- Of three guardians one is revoked, and no batch of envelopes makes him count. -/
theorem revoked_guardian_uncounted :
    Roster.ofGuardians [⟨"ann", [1], 0, none, false⟩, ⟨"ben", [2], 3, none, false⟩,
        ⟨"eve", [3], 2, none, true⟩] =
      .ok ⟨[⟨"ann", [1], 0, none, false⟩, ⟨"ben", [2], 3, none, false⟩],
        [("ben", 1), ("ann", 0)], [([2], 1), ([1], 0)]⟩ ∧
    ∀ batch, "eve" ∉ (ofEnvelopes ⟨[⟨"ann", [1], 0, none, false⟩, ⟨"ben", [2], 3, none, false⟩],
        [("ben", 1), ("ann", 0)], [([2], 1), ([1], 0)]⟩ ⟨List.replicate 32 0, by decide⟩ 1 .fresh
        batch).approvingIds := by
  have h : Roster.ofGuardians [⟨"ann", [1], 0, none, false⟩, ⟨"ben", [2], 3, none, false⟩,
      ⟨"eve", [3], 2, none, true⟩] =
    .ok ⟨[⟨"ann", [1], 0, none, false⟩, ⟨"ben", [2], 3, none, false⟩],
      [("ben", 1), ("ann", 0)], [([2], 1), ([1], 0)]⟩ := rfl
  refine ⟨h, fun batch hid => ?_⟩
  have hexact := ofEnvelopes_counts_exactly h ⟨List.replicate 32 0, by decide⟩ 1 .fresh
  obtain ⟨g, hg, hrev, hname, _⟩ := ((hexact.1 batch).1 "eve").mp hid
  simp only [List.mem_cons, List.not_mem_nil, or_false] at hg
  rcases hg with rfl | rfl | rfl
  · exact absurd hname (by decide)
  · exact absurd hname (by decide)
  · exact absurd hrev (by decide)

end Tally
end Countersign
