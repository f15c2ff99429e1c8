import Countersign.Tally
import Mathlib.Data.List.Perm.Basic

/-! Sifting takes one envelope after the other. What one of them does depends on the roster, on the
digest and on the names that are claimed, and from this follows what a whole batch does. -/

namespace Countersign.Tally

/-- The envelope is the guardian's approval in every batch where no other is in front of it. -/
structure CountsFor (roster : Roster) (d : Digest) (e : Envelope) (g : Guardian) : Prop where
  behind : roster.behind? e = some g
  parameterSet : g.parameterSet = e.parameterSet
  valid : e.verdict (some d) = .valid

instance (roster : Roster) (d : Digest) (e : Envelope) (g : Guardian) :
    Decidable (CountsFor roster d e g) :=
  decidable_of_iff
    (roster.behind? e = some g ∧ g.parameterSet = e.parameterSet ∧ e.verdict (some d) = .valid)
    ⟨fun ⟨hb, hp, hv⟩ => ⟨hb, hp, hv⟩, fun ⟨hb, hp, hv⟩ => ⟨hb, hp, hv⟩⟩

variable {roster : Roster} {d : Digest} {claimed : List String}

/-! ### One envelope -/

theorem approver_eq_ok_iff {e : Envelope} {g : Guardian} :
    approver roster d claimed e = .ok g ↔ g.id ∉ claimed ∧ CountsFor roster d e g := by
  constructor
  · intro h
    unfold approver at h
    split at h
    · exact nomatch h
    · rename_i other hb
      split at h
      · exact nomatch h
      · rename_i hset
        split at h
        · exact nomatch h
        · rename_i hc
          split at h
          · rename_i hv
            obtain rfl := Except.ok.inj h
            exact ⟨hc, hb, not_not.mp hset, hv⟩
          · exact nomatch h
  · rintro ⟨hc, hb, hset, hv⟩
    simp [approver, hb, hset, hc, hv]

theorem approver_of_claimed {e : Envelope} {g : Guardian} (h : CountsFor roster d e g)
    (hc : g.id ∈ claimed) : approver roster d claimed e = .error .duplicateGuardian := by
  simp [approver, h.behind, h.parameterSet, hc]

theorem sift_of_ok {e : Envelope} {g : Guardian} (h : approver roster d claimed e = .ok g)
    (rest : List Envelope) : sift roster d claimed (e :: rest) =
      ⟨⟨g, e⟩ :: (sift roster d (g.id :: claimed) rest).approvals,
        (sift roster d (g.id :: claimed) rest).refusals⟩ := by
  simp [sift, h]

theorem sift_of_error {e : Envelope} {reason : Rejection}
    (h : approver roster d claimed e = .error reason) (rest : List Envelope) :
    sift roster d claimed (e :: rest) =
      ⟨(sift roster d claimed rest).approvals,
        ⟨e, reason⟩ :: (sift roster d claimed rest).refusals⟩ := by
  simp [sift, h]

/-! ### The whole batch -/

theorem countsFor_of_mem_sift {batch : List Envelope} {a : Approval}
    (h : a ∈ (sift roster d claimed batch).approvals) :
    a.envelope ∈ batch ∧ a.guardian.id ∉ claimed ∧
      CountsFor roster d a.envelope a.guardian := by
  induction batch generalizing claimed with
  | nil => exact nomatch h
  | cons e rest ih =>
    cases ha : approver roster d claimed e with
    | error reason =>
      rw [sift_of_error ha] at h
      obtain ⟨he, hc, hcounts⟩ := ih h
      exact ⟨List.mem_cons_of_mem _ he, hc, hcounts⟩
    | ok g =>
      rw [sift_of_ok ha] at h
      rcases List.mem_cons.mp h with rfl | h
      · exact ⟨List.mem_cons_self, approver_eq_ok_iff.mp ha⟩
      · obtain ⟨he, hc, hcounts⟩ := ih h
        exact ⟨List.mem_cons_of_mem _ he, fun hm => hc (List.mem_cons_of_mem _ hm), hcounts⟩

theorem exists_of_mem_refusals {batch : List Envelope} {r : Refusal}
    (h : r ∈ (sift roster d claimed batch).refusals) :
    ∃ claimed', approver roster d claimed' r.envelope = .error r.reason := by
  induction batch generalizing claimed with
  | nil => exact nomatch h
  | cons e rest ih =>
    cases ha : approver roster d claimed e with
    | ok g =>
      rw [sift_of_ok ha] at h
      exact ih h
    | error reason =>
      rw [sift_of_error ha] at h
      rcases List.mem_cons.mp h with rfl | h
      · exact ⟨claimed, ha⟩
      · exact ih h

theorem perm_sift (roster : Roster) (d : Digest) (claimed : List String) (batch : List Envelope) :
    ((sift roster d claimed batch).approvals.map (·.envelope) ++
      (sift roster d claimed batch).refusals.map (·.envelope)).Perm batch := by
  induction batch generalizing claimed with
  | nil => rfl
  | cons e rest ih =>
    cases ha : approver roster d claimed e with
    | ok g =>
      rw [sift_of_ok ha]
      exact (ih (g.id :: claimed)).cons e
    | error reason =>
      rw [sift_of_error ha]
      exact List.perm_middle.trans ((ih claimed).cons e)

theorem sublist_sift (roster : Roster) (d : Digest) (claimed : List String)
    (batch : List Envelope) :
    ((sift roster d claimed batch).approvals.map (·.envelope)).Sublist batch ∧
      ((sift roster d claimed batch).refusals.map (·.envelope)).Sublist batch := by
  induction batch generalizing claimed with
  | nil => exact ⟨.slnil, .slnil⟩
  | cons e rest ih =>
    cases ha : approver roster d claimed e with
    | ok g =>
      rw [sift_of_ok ha]
      obtain ⟨happrovals, hrefusals⟩ := ih (g.id :: claimed)
      exact ⟨happrovals.cons_cons e, hrefusals.cons e⟩
    | error reason =>
      rw [sift_of_error ha]
      obtain ⟨happrovals, hrefusals⟩ := ih claimed
      exact ⟨happrovals.cons e, hrefusals.cons_cons e⟩

end Countersign.Tally
