import Countersign.Proofs.Disk.Retaining
import Countersign.Proofs.Journal.Sharing

/-! What can fail under a journal: any of the accesses that an operation makes can fail on the way
and leave behind what it has done so far. -/

namespace Countersign.Journal

open Sharing (IsCut)

namespace Access

/-- Each access does what it is to do, or it fails at some point on the way. -/
structure IsFallible (access : Access) : Prop where
  makeLock : ∀ journal disk, access.makeLock journal disk = journal.makeLock disk ∨
    ∃ other fault, access.makeLock journal disk = (other, some fault) ∧
      Approached journal.path disk other
  readFile : ∀ disk path, access.readFile disk path = Journal.readFile disk path ∨
    ∃ fault, access.readFile disk path = .error fault
  replace : ∀ disk path content, access.replace disk path content = disk.replace path content ∨
    ∃ steps, IsCut content steps ∧
      access.replace disk path content = ((FileStep.run path disk steps).1, false)

variable {access : Access} {journal after taken : Journal} {disk other : Disk} {digest : String}
  {details : ExecutionDetails} {now : Moment} {warnings : List JournalWarning}
  {fault : JournalFault}

theorem IsFallible.approached_makeLock (ha : access.IsFallible) :
    Approached journal.path disk (access.makeLock journal disk).1 := by
  rcases ha.makeLock journal disk with hm | ⟨other, fault, hm, happroached⟩
  · rw [hm]
    exact Journal.approached_makeLock journal disk
  · rwa [hm]

/-- A record is added as if nothing could fail, or the handle is as it was, and no more than the
steps before the last one have been carried out on the file. -/
theorem IsFallible.recordLocked_cases (ha : access.IsFallible) :
    access.recordLocked journal disk digest details now =
        journal.recordLocked disk digest details now ∨
      (journal.isExecuted digest = false ∧ ∃ steps, FileStep.rename ∉ steps ∧
        access.recordLocked journal disk digest details now =
          ((FileStep.run journal.path disk steps).1, journal,
            .error (.inaccessible journal.path))) := by
  cases hx : journal.isExecuted digest with
  | true => exact .inl ((recordLocked_of_isExecuted hx).trans
      (Journal.recordLocked_of_isExecuted hx).symm)
  | false =>
    rcases ha.replace disk journal.path (ExecutionRecord.document
        (journal.records ++ [newRecord digest details now])) with hr | ⟨steps, hcut, hr⟩
    · exact .inl ((recordLocked_of_replace hx hr).trans
        (Journal.recordLocked_of_replace hx rfl).symm)
    · exact .inr ⟨rfl, steps, hcut.not_mem, recordLocked_of_replace hx hr⟩

/-- Whatever fails under the lock, the handle is as it was, and at most the steps before the last
one have been carried out on the file. -/
theorem IsFallible.recordLocked_error (ha : access.IsFallible)
    (h : access.recordLocked journal disk digest details now = (other, after, .error fault)) :
    after = journal ∧
      (∃ steps, FileStep.rename ∉ steps ∧ other = (FileStep.run journal.path disk steps).1) ∧
      (fault ≠ .alreadyExecuted (Digest.normalForm digest) →
        journal.isExecuted digest = false) := by
  rcases ha.recordLocked_cases with heq | ⟨hx, steps, hs, heq⟩
  · rw [heq] at h
    rcases Journal.recordLocked_cases h with ⟨_, rfl, rfl, hr⟩ | ⟨_, _, _, hr⟩ | ⟨hx, hrep, rfl, _⟩
    · exact ⟨rfl, ⟨[], List.not_mem_nil, rfl⟩, fun hne => absurd (Except.error.inj hr) hne⟩
    · simp at hr
    · exact ⟨rfl, ⟨_, by simp, Disk.run_of_replace hrep⟩, fun _ => hx⟩
  · rw [heq] at h
    simp only [Prod.mk.injEq] at h
    obtain ⟨rfl, rfl, _⟩ := h
    exact ⟨rfl, ⟨steps, hs, rfl⟩, fun _ => hx⟩

end Access
end Countersign.Journal
