import Countersign.Setup.Roster
import Countersign.Setup.Settings
import Countersign.Proofs.Disk.Spelling
import Countersign.Proofs.Except

/-! What is known of settings and rosters that have been loaded, whatever their files hold. -/

namespace Countersign

namespace Settings

/-- The signature that a file states for the function which executes intents. -/
def Written.signature (w : Written) : String :=
  (w.functionSignature.map Text.trimmed).getD Selector.executeSignature

theorem of_ofWritten {base : String} {w : Written} {settings : Settings}
    (h : ofWritten base w = .ok settings) :
    1 ≤ settings.threshold ∧ settings.functionSignature = w.signature ∧
      settings.bindsSelector = w.bindsSelector.getD true := by
  unfold ofWritten at h
  obtain ⟨_, _, h⟩ := exists_of_bind_eq_ok h
  obtain ⟨_, _, h⟩ := exists_of_bind_eq_ok h
  obtain ⟨_, _, h⟩ := exists_of_bind_eq_ok h
  obtain ⟨_, _, h⟩ := exists_of_bind_eq_ok h
  obtain ⟨_, h⟩ := of_check_eq_ok h
  obtain ⟨threshold, _, h⟩ := exists_of_bind_eq_ok h
  obtain ⟨hne, h⟩ := of_check_eq_ok h
  obtain ⟨_, _, h⟩ := exists_of_bind_eq_ok h
  obtain ⟨_, _, h⟩ := exists_of_bind_eq_ok h
  obtain ⟨_, _, h⟩ := exists_of_bind_eq_ok h
  obtain rfl := Except.ok.inj h
  exact ⟨Nat.one_le_iff_ne_zero.mpr hne, rfl, rfl⟩

theorem of_required_eq_ok {α : Type} {field : String} {stated : Option α} {a : α}
    (h : required field stated = .ok a) : stated = some a := by
  cases stated with
  | none => exact nomatch h
  | some a' => exact congrArg some (Except.ok.inj h)

/-- The paths of the settings are those of their file, as seen from its directory. -/
theorem exists_paths_of_ofWritten {base : String} {w : Written} {settings : Settings}
    (h : ofWritten base w = .ok settings) : ∃ roster journal envelopes,
      w.rosterPath = some roster ∧ settings.rosterPath = Path.join base roster ∧
      w.journalPath = some journal ∧ settings.journalPath = Path.join base journal ∧
      w.envelopeDirectory = some envelopes ∧
      settings.envelopeDirectory = Path.join base envelopes := by
  unfold ofWritten at h
  obtain ⟨_, _, h⟩ := exists_of_bind_eq_ok h
  obtain ⟨_, _, h⟩ := exists_of_bind_eq_ok h
  obtain ⟨_, _, h⟩ := exists_of_bind_eq_ok h
  obtain ⟨_, _, h⟩ := exists_of_bind_eq_ok h
  obtain ⟨_, h⟩ := of_check_eq_ok h
  obtain ⟨_, _, h⟩ := exists_of_bind_eq_ok h
  obtain ⟨_, h⟩ := of_check_eq_ok h
  obtain ⟨roster, hr, h⟩ := exists_of_bind_eq_ok h
  obtain ⟨journal, hj, h⟩ := exists_of_bind_eq_ok h
  obtain ⟨envelopes, he, h⟩ := exists_of_bind_eq_ok h
  obtain rfl := Except.ok.inj h
  exact ⟨roster, journal, envelopes, of_required_eq_ok hr, rfl, of_required_eq_ok hj, rfl,
    of_required_eq_ok he, rfl⟩

/-- Settings that are called for under two texts of their directory name the same files. -/
theorem areSpellings_of_ofWritten {base base' : String} {w : Written} {settings settings' : Settings}
    (h : ofWritten base w = .ok settings) (h' : ofWritten base' w = .ok settings')
    (habsolute : Path.isAbsolute base = Path.isAbsolute base')
    (hbase : (Path.names base).filter Path.isStep = (Path.names base').filter Path.isStep) :
    Path.AreSpellings settings.rosterPath settings'.rosterPath ∧
      Path.AreSpellings settings.journalPath settings'.journalPath ∧
      Path.AreSpellings settings.envelopeDirectory settings'.envelopeDirectory := by
  obtain ⟨roster, journal, envelopes, hr, hpr, hj, hpj, he, hpe⟩ := exists_paths_of_ofWritten h
  obtain ⟨roster', journal', envelopes', hr', hpr', hj', hpj', he', hpe'⟩ :=
    exists_paths_of_ofWritten h'
  obtain rfl := Option.some.inj (hr.symm.trans hr')
  obtain rfl := Option.some.inj (hj.symm.trans hj')
  obtain rfl := Option.some.inj (he.symm.trans he')
  rw [hpr, hpr', hpj, hpj', hpe, hpe']
  exact ⟨Path.areSpellings_join habsolute hbase roster,
    Path.areSpellings_join habsolute hbase journal,
    Path.areSpellings_join habsolute hbase envelopes⟩

theorem exists_of_load {disk : Disk} {path : String} {settings : Settings}
    (h : load disk path = .ok settings) : ∃ text w, disk.readText? path = some text ∧
      Written.ofJson (Text.utf8 text) = .ok w ∧
      ofWritten ((Path.parent? path).getD "") w = .ok settings := by
  unfold load at h
  split at h
  · exact nomatch h
  · rename_i text htext
    split at h
    · exact nomatch h
    · rename_i w hw
      exact ⟨text, w, htext, hw, h⟩

theorem needed_of_load {disk : Disk} {path : String} {settings : Settings}
    (h : load disk path = .ok settings) : 1 ≤ settings.threshold := by
  obtain ⟨_, _, _, _, h⟩ := exists_of_load h
  exact (of_ofWritten h).1

end Settings

theorem Roster.exists_guardians_of_load {disk : Disk} {path : String} {roster : Roster}
    (h : Roster.load disk path = .ok roster) :
    ∃ guardians, Roster.ofGuardians guardians = .ok roster := by
  unfold Roster.load at h
  split at h
  · exact nomatch h
  · split at h
    · exact nomatch h
    · obtain ⟨guardians, _, hg⟩ := exists_of_bind_eq_ok h
      exact ⟨guardians, hg⟩

end Countersign
