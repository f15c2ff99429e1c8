import Countersign.Proofs.Tally.Outcome

/-! A tally accounts for every guardian and for every envelope. Each guardian who takes part has
approved or is pending, and what is missing to the threshold is told from the approvals. -/

namespace Countersign

theorem Roster.IsIndexed.nodup_ids {roster : Roster} (hr : roster.IsIndexed) :
    (roster.guardians.map (·.id)).Nodup :=
  List.Nodup.map_on (fun _ ha _ hb hid => hr.eq_of_id ha hb hid) hr.nodup_guardians

namespace Tally

variable {roster : Roster} {d : Digest}

/-- The guardians whose names are claimed are those of the approvals, since no two share a name. -/
theorem IsUsable.perm_claimed (hr : IsUsable roster) (batch : List Envelope) :
    let approvals := (sift roster d [] batch).approvals
    (roster.guardians.filter (·.id ∈ approvals.map (·.guardian.id))).Perm
      (approvals.map (·.guardian)) := by
  intro approvals
  apply (List.perm_ext_iff_of_nodup (hr.nodup_guardians.filter _)
    (hr.nodup_guardians_sift [] batch)).mpr
  intro g
  simp only [List.mem_filter, List.mem_map, decide_eq_true_eq]
  constructor
  · rintro ⟨hg, a, ha, hid⟩
    exact ⟨a, ha, hr.eq_of_id (hr.approval_of_mem_sift ha).1 hg hid⟩
  · rintro ⟨a, ha, rfl⟩
    exact ⟨(hr.approval_of_mem_sift ha).1, a, ha, rfl⟩

theorem IsUsable.perm_guardians (hr : IsUsable roster) (threshold : Nat) (replay : Replay)
    (batch : List Envelope) :
    let t := ofEnvelopes roster d threshold replay batch
    (t.approvals.map (·.guardian) ++ t.pending).Perm roster.guardians := by
  intro t
  let claimed := (sift roster d [] batch).approvals.map (·.guardian.id)
  have hpending : t.pending = roster.guardians.filter fun g => !decide (g.id ∈ claimed) :=
    List.filter_congr fun g _ => decide_not
  have hall := List.filter_append_perm (·.id ∈ claimed) roster.guardians
  rw [← hpending] at hall
  exact ((hr.perm_claimed batch).symm.append_right t.pending).trans hall

theorem shortfall_eq (t : Tally) :
    (t.shortfall : Int) = max 0 ((t.threshold : Int) - t.approvals.length) := by
  unfold shortfall
  omega

theorem isMet_iff_shortfall (t : Tally) :
    t.isMet = true ↔ t.shortfall = 0 ∧ t.replay.isExecuted = false := by
  simp [isMet, shortfall, Nat.sub_eq_zero_iff_le]

/-- The guardians who have approved and those who are pending are together the guardians who take
part, each once and the pending ones in their order; the approvals and the refusals are together the
batch. The shortfall is what the approvals lack to the threshold, and it is zero when the threshold
is met. -/
theorem every_guardian_is_accounted_for {guardians : List Guardian}
    (h : Roster.ofGuardians guardians = .ok roster) (d : Digest) (threshold : Nat)
    (replay : Replay) (batch : List Envelope) :
    let t := ofEnvelopes roster d threshold replay batch
    roster.guardians = guardians.filter (!·.revoked) ∧
    (t.approvals.map (·.guardian) ++ t.pending).Perm roster.guardians ∧
    (t.approvingIds ++ t.pendingIds).Perm (roster.guardians.map (·.id)) ∧
    (t.approvingIds ++ t.pendingIds).Nodup ∧
    t.pending.Sublist roster.guardians ∧
    t.approvals.length + t.pending.length = roster.guardians.length ∧
    t.approvals.length + t.refusals.length = batch.length ∧
    (t.shortfall : Int) = max 0 ((threshold : Int) - t.approvals.length) ∧
    (t.isMet = true ↔ t.shortfall = 0 ∧ replay.isExecuted = false) := by
  intro t
  have hr := isUsable_of_ofGuardians h
  have hguardians : (t.approvals.map (·.guardian) ++ t.pending).Perm roster.guardians :=
    hr.perm_guardians threshold replay batch
  have hids : (t.approvingIds ++ t.pendingIds).Perm (roster.guardians.map (·.id)) := by
    have hmapped := hguardians.map (·.id)
    rw [List.map_append, List.map_map] at hmapped
    exact hmapped
  have hlength := hguardians.length_eq
  have hbatch := (perm_sift roster d [] batch).length_eq
  rw [List.length_append, List.length_map] at hlength
  rw [List.length_append, List.length_map, List.length_map] at hbatch
  exact ⟨(Roster.ofGuardians_eq_ok h).2.1, hguardians, hids, hids.nodup_iff.mpr hr.nodup_ids,
    List.filter_sublist, hlength, hbatch, shortfall_eq t, isMet_iff_shortfall t⟩

/-- Two envelopes of one guardian are one approval and one refusal, and the other guardian is
pending. -/
theorem ben_is_pending :
    let d : Digest := ⟨List.replicate 32 0, by decide⟩
    let t := ofEnvelopes annAndBen d 2 .fresh [annNoted d "first", annNoted d "next"]
    Roster.ofGuardians
        [ann, { ben with id := "eve", publicKey := [3], revoked := true }, ben] = .ok annAndBen ∧
      t.approvals = [⟨ann, annNoted d "first"⟩] ∧ t.pending = [ben] ∧ t.refusals.length = 1 ∧
      t.shortfall = 1 ∧ t.isMet = false := by
  intro d t
  have happrovals : t.approvals = [⟨ann, annNoted d "first"⟩] :=
    approvals_pair (countsFor_annNoted d "first") (countsFor_annNoted d "next") 2 .fresh
  obtain ⟨_, hall, _, _, _, _, hbatch, hshortfall, hmet⟩ :=
    every_guardian_is_accounted_for ofGuardians_annAndBen d 2 .fresh
      [annNoted d "first", annNoted d "next"]
  change (t.approvals.map (·.guardian) ++ t.pending).Perm [ann, ben] at hall
  change t.approvals.length + t.refusals.length = 2 at hbatch
  change (t.shortfall : Int) = max 0 (((2 : Nat) : Int) - t.approvals.length) at hshortfall
  change t.isMet = true ↔ t.shortfall = 0 ∧ _ at hmet
  have hone : t.approvals.length = 1 := by rw [happrovals, List.length_singleton]
  have hmissing : t.shortfall = 1 := by omega
  rw [happrovals] at hall
  refine ⟨ofGuardians_annAndBen, happrovals,
    List.perm_singleton.mp ((List.perm_cons ann).mp hall), by omega, hmissing, ?_⟩
  refine Bool.eq_false_iff.mpr fun hm => ?_
  have hzero := (hmet.mp hm).1
  omega

end Tally
end Countersign
