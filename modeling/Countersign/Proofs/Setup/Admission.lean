import Countersign.Proofs.Setup.Roster
import Countersign.Proofs.Text.Trim

/-! Who is taken into a roster. It is made of exactly the lists in which every guardian is complete
and those that take part share nothing, and a guardian who is revoked leaves no trace in it. -/

namespace Countersign

theorem Guardian.isComplete_iff {g : Guardian} :
    g.IsComplete ↔ (∃ c ∈ g.id.toList, Text.isBlank c = false) ∧ g.publicKey ≠ [] ∧
      g.parameterSet.toNat ≤ 3 := by
  have hset : Scheme.isSupported g.parameterSet = true ↔ g.parameterSet.toNat ≤ 3 := by
    rw [Scheme.isSupported, decide_eq_true_iff, UInt8.le_iff_toNat_le]
    rfl
  rw [← Text.trim_ne_nil_iff, ← hset]
  exact ⟨fun h => ⟨h.id, h.publicKey, h.parameterSet⟩, fun ⟨hid, hkey, hset⟩ => ⟨hid, hkey, hset⟩⟩

namespace Roster

theorem mem_active_iff {guardians : List Guardian} {g : Guardian} :
    g ∈ guardians.filter (!·.revoked) ↔ g ∈ guardians ∧ g.revoked = false := by
  simp

theorem isListed_of_ofGuardians {guardians : List Guardian} {roster : Roster}
    (h : ofGuardians guardians = .ok roster) : roster.IsListed := by
  cases hc : Guardian.checkAll 0 guardians with
  | error fault => simp [ofGuardians, hc, Except.bind] at h
  | ok _ =>
    have hempty : IsListed {} := ⟨rfl, rfl⟩
    exact hempty.addAll (by simpa [ofGuardians, hc, Except.bind] using h)

/-- An entry of an index stands for the guardian in its place, who has that name or key. -/
theorem exists_of_mem_zipIdx {α : Type} {guardians : List Guardian} {f : Guardian → α}
    {entry : α × Nat} (h : entry ∈ (guardians.map f).zipIdx.reverse) :
    ∃ g, guardians[entry.2]? = some g ∧ f g = entry.1 := by
  rw [List.mem_reverse, List.mk_mem_zipIdx_iff_getElem?, List.getElem?_map] at h
  exact Option.map_eq_some_iff.mp h

/-- Those who are revoked are checked, and that is all that is done with them. -/
theorem ofGuardians_active {guardians : List Guardian} {roster : Roster}
    (h : ofGuardians guardians = .ok roster) :
    ofGuardians (guardians.filter (!·.revoked)) = .ok roster := by
  cases hc : Guardian.checkAll 0 guardians with
  | error fault => simp [ofGuardians, hc, Except.bind] at h
  | ok _ =>
    have hall := Guardian.checkAll_eq_ok_iff.mp hc
    have hactive : Guardian.checkAll 0 (guardians.filter (!·.revoked)) = .ok () :=
      Guardian.checkAll_eq_ok_iff.mpr fun g hg => hall g (mem_active_iff.mp hg).1
    simpa [ofGuardians, hc, hactive, Except.bind, List.filter_filter] using h

/-- A list makes a roster if and only if every guardian in it, revoked or not, has a name that is
not blank, a key and a known parameter set, and no two of those who take part share a name or a
key. The roster then holds those in their order; by a name or a key it finds exactly the one of
them who has it, its indexes lead to nobody else, and it is that of the list without the revoked. -/
theorem ofGuardians_takes_the_fit (guardians : List Guardian) :
    ((∃ roster, ofGuardians guardians = .ok roster) ↔
      (∀ g ∈ guardians, (∃ c ∈ g.id.toList, Text.isBlank c = false) ∧ g.publicKey ≠ [] ∧
        g.parameterSet.toNat ≤ 3) ∧
      (guardians.filter (!·.revoked)).Pairwise fun a b =>
        a.id ≠ b.id ∧ a.publicKey ≠ b.publicKey) ∧
    ∀ roster, ofGuardians guardians = .ok roster →
      roster.guardians = guardians.filter (!·.revoked) ∧
      (∀ id g, roster.get? id = some g ↔ g ∈ guardians ∧ g.revoked = false ∧ g.id = id) ∧
      (∀ key g, roster.withKey? key = some g ↔
        g ∈ guardians ∧ g.revoked = false ∧ g.publicKey = key) ∧
      (∀ entry ∈ roster.idIndex, ∃ g, roster.guardians[entry.2]? = some g ∧ g.id = entry.1) ∧
      (∀ entry ∈ roster.keyIndex, ∃ g, roster.guardians[entry.2]? = some g ∧
        g.publicKey = entry.1) ∧
      ofGuardians (guardians.filter (!·.revoked)) = .ok roster := by
  constructor
  · simp only [exists_ofGuardians_iff, Guardian.isComplete_iff]
    rfl
  · intro roster h
    obtain ⟨hindexed, hactive, _⟩ := ofGuardians_eq_ok h
    have hlisted := isListed_of_ofGuardians h
    refine ⟨hactive, fun id g => ?_, fun key g => ?_, fun entry he => ?_, fun entry he => ?_,
      ofGuardians_active h⟩
    · rw [hindexed.get?_eq_some_iff, hactive, mem_active_iff, and_assoc]
    · rw [hindexed.withKey?_eq_some_iff, hactive, mem_active_iff, and_assoc]
    · rw [hlisted.id] at he
      exact exists_of_mem_zipIdx he
    · rw [hlisted.key] at he
      exact exists_of_mem_zipIdx he

/-- The key of a guardian who is revoked can be given to another. -/
example : ∃ roster, ofGuardians [⟨"old", [1], 2, none, true⟩, ⟨"new", [1], 2, none, false⟩] =
    .ok roster ∧ roster.withKey? [1] = some ⟨"new", [1], 2, none, false⟩ :=
  ⟨_, rfl, by decide +kernel⟩

end Roster
end Countersign
