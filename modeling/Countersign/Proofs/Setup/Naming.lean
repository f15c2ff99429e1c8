import Countersign.Proofs.Setup.Admission
import Countersign.Proofs.Except

/-! Guardians and the names that envelopes state. A name can keep an envelope from its guardian, but
never leads it to another; and it has to be a name without blanks around it. -/

namespace Countersign

/-- The guardian goes by the name as it is, without blanks around it. -/
def Guardian.IsTrimmed (g : Guardian) : Prop := Text.stated? g.id = some g.id

theorem GuardianEntry.isTrimmed_of_guardian {place : Nat} {entry : GuardianEntry} {g : Guardian}
    (h : entry.guardian place = .ok g) : g.IsTrimmed := by
  unfold guardian at h
  split at h
  · exact nomatch h
  · rename_i id hid
    obtain ⟨_, _, hid⟩ := Option.bind_eq_some_iff.mp hid
    split at h
    · exact nomatch h
    · obtain ⟨_, h⟩ := of_check_eq_ok h
      split at h
      · exact nomatch h
      · obtain rfl := Except.ok.inj h
        exact Text.stated?_of_stated? hid

theorem GuardianEntry.isTrimmed_of_guardians {entries : List GuardianEntry} {place : Nat}
    {found : List Guardian} (h : guardians place entries = .ok found) :
    ∀ g ∈ found, g.IsTrimmed := by
  induction entries generalizing place found with
  | nil =>
    obtain rfl := Except.ok.inj h
    exact nofun
  | cons entry rest ih =>
    unfold guardians at h
    obtain ⟨first, hfirst, h⟩ := exists_of_bind_eq_ok h
    obtain ⟨more, hmore, h⟩ := exists_of_bind_eq_ok h
    obtain rfl := Except.ok.inj h
    intro g hg
    rcases List.mem_cons.mp hg with rfl | hg
    · exact isTrimmed_of_guardian hfirst
    · exact ih hmore g hg

namespace Roster

variable {guardians : List Guardian} {roster : Roster}

/-! ### A roster with blanks in it -/

/-- A guardian whose name was registered with a blank in front of it. -/
def padded : Guardian := ⟨" alice", [1], 2, none, false⟩

def bob : Guardian := ⟨"bob", [2], 2, none, false⟩

def paddedRoster : Roster :=
  ⟨[padded, bob], [("bob", 1), (" alice", 0)], [([2], 1), ([1], 0)]⟩

theorem ofGuardians_padded : ofGuardians [padded, bob] = .ok paddedRoster := by
  have hpadded : (Text.trim padded.id.toList).isEmpty = false := by decide +kernel
  have hbob : (Text.trim bob.id.toList).isEmpty = false := by decide +kernel
  simp only [ofGuardians, Guardian.checkAll, Guardian.check, hpadded, hbob]
  rfl

/-- What comes under a key and a name. -/
def signedAs (key : Bytes) (name : String) : Envelope where
  parameterSet := 2
  digest := ""
  publicKey := key
  signature := []
  metadata := some { guardianId := some name }

/-! ### Names and keys -/

/-- Whom an envelope is traced to is decided by its key. Of two envelopes with one key, whatever
they say beside it, no two guardians are behind, and the key is that guardian's. A name that is
stated has to be the guardian's own, but for blanks around it, and without it the envelope would be
traced to the same guardian. -/
theorem relabelling_moves_no_key (h : ofGuardians guardians = .ok roster) :
    (∀ (e e' : Envelope) g g', e.publicKey = e'.publicKey → roster.behind? e = some g →
      roster.behind? e' = some g' → g = g' ∧ g.publicKey = e.publicKey) ∧
    ∀ (e : Envelope) stated g, e.guardianId = some stated →
      (∃ c ∈ stated.toList, Text.isBlank c = false) → roster.behind? e = some g →
        g.id = Text.trimmed stated ∧ roster.behind? { e with metadata := none } = some g := by
  obtain ⟨hindexed, _⟩ := ofGuardians_eq_ok h
  refine ⟨fun e e' g g' hsame hg hg' => ?_, fun e stated g hstated hname hg => ?_⟩
  · obtain ⟨hmem, hkey, _⟩ := hindexed.behind?_eq_some_iff.mp hg
    obtain ⟨hmem', hkey', _⟩ := hindexed.behind?_eq_some_iff.mp hg'
    have hkeys : g.publicKey = g'.publicKey := by rw [← hkey, hsame, hkey']
    exact ⟨hindexed.eq_of_publicKey hmem hmem' hkeys, hkey.symm⟩
  · obtain ⟨hmem, hkey, hid⟩ := hindexed.behind?_eq_some_iff.mp hg
    have htrimmed : Text.stated? stated = some (Text.trimmed stated) :=
      Text.stated?_eq_some_iff.mpr ⟨hname, rfl⟩
    rw [hstated, Option.bind_some, htrimmed, Option.some.injEq] at hid
    exact ⟨(hid.resolve_left nofun).symm,
      hindexed.behind?_eq_some_iff.mpr ⟨hmem, hkey, .inl rfl⟩⟩

/-- The name is stated with blanks around it, and then not at all. -/
theorem blanks_around_a_name_move_nothing :
    paddedRoster.behind? (signedAs [2] "\tbob ") = some bob ∧
      paddedRoster.behind? { signedAs [2] "\tbob " with metadata := none } = some bob := by
  have hbehind : paddedRoster.behind? (signedAs [2] "\tbob ") = some bob := by decide +kernel
  obtain ⟨_, hstated⟩ := relabelling_moves_no_key ofGuardians_padded
  have hname : ∃ c ∈ "\tbob ".toList, Text.isBlank c = false := ⟨'b', by decide, by decide⟩
  exact ⟨hbehind, (hstated _ "\tbob " bob rfl hname hbehind).2⟩

/-- The name that is stated need not be the guardian's to the letter. -/
theorem stated_name_can_differ : ofGuardians [bob] = .ok ⟨[bob], [("bob", 0)], [([2], 0)]⟩ ∧
    (signedAs [2] "\tbob ").guardianId = some "\tbob " ∧
      (∃ c ∈ "\tbob ".toList, Text.isBlank c = false) ∧
      Roster.behind? ⟨[bob], [("bob", 0)], [([2], 0)]⟩ (signedAs [2] "\tbob ") = some bob ∧
      bob.id ≠ "\tbob " :=
  ⟨rfl, rfl, ⟨'b', by decide, by decide⟩, by decide +kernel, by decide⟩

/-- A guardian who takes part is known by the name as it was registered. An envelope with the
guardian's key that states this name is traced to the guardian if and only if no blanks are around
the name, and to nobody otherwise. Around the names that are read from a file there are none. -/
theorem own_name_leads_home_if_trimmed (h : ofGuardians guardians = .ok roster) {g : Guardian}
    (hg : g ∈ guardians) (hactive : g.revoked = false) {e : Envelope}
    (hkey : e.publicKey = g.publicKey) (hid : e.guardianId = some g.id) :
    roster.contains g.id = true ∧ roster.get? g.id = some g ∧
      roster.behind? e = (if Text.trimmed g.id = g.id then some g else none) ∧
      ∀ entries, GuardianEntry.guardians 0 entries = .ok guardians →
        roster.behind? e = some g := by
  obtain ⟨hindexed, htaken, hcomplete⟩ := ofGuardians_eq_ok h
  have hmem : g ∈ roster.guardians := by
    rw [htaken]
    exact mem_active_iff.mpr ⟨hg, hactive⟩
  have hget : roster.get? g.id = some g := hindexed.get?_eq_some_iff.mpr ⟨hmem, rfl⟩
  have hcontains : roster.contains g.id = true := by
    obtain ⟨place, hplace, _⟩ := Option.bind_eq_some_iff.mp hget
    rw [contains, hplace, Option.isSome_some]
  have hstated : Text.stated? g.id = some (Text.trimmed g.id) :=
    Text.stated?_eq_some_iff.mpr ⟨(Guardian.isComplete_iff.mp (hcomplete g hmem)).1, rfl⟩
  have hbehind : roster.behind? e = if Text.trimmed g.id = g.id then some g else none := by
    split
    · rename_i htrim
      refine hindexed.behind?_eq_some_iff.mpr ⟨hmem, hkey, .inr ?_⟩
      rw [hid, Option.bind_some, hstated, htrim]
    · rename_i htrim
      refine Option.eq_none_iff_forall_ne_some.mpr fun other hother => htrim ?_
      -- only the guardian has the key, and then the name would have to be the trimmed one
      obtain ⟨hmem', hkey', hname⟩ := hindexed.behind?_eq_some_iff.mp hother
      obtain rfl := hindexed.eq_of_publicKey hmem hmem' (hkey.symm.trans hkey')
      rw [hid, Option.bind_some, hstated, Option.some.injEq] at hname
      exact hname.resolve_left nofun
  refine ⟨hcontains, hget, hbehind, fun entries hentries => ?_⟩
  have htrim : Text.stated? g.id = some g.id :=
    GuardianEntry.isTrimmed_of_guardians hentries g hg
  rw [hbehind, if_pos (Text.stated?_eq_some_iff.mp htrim).2]

/-- The guardian with the tidy name is found by it, beside one whose name is not. -/
theorem bob_is_found_by_name : paddedRoster.contains bob.id = true ∧
    paddedRoster.get? bob.id = some bob ∧
      paddedRoster.behind? (signedAs bob.publicKey bob.id) = some bob := by
  obtain ⟨hcontains, hget, hbehind, _⟩ := own_name_leads_home_if_trimmed ofGuardians_padded
    (List.mem_cons_of_mem _ List.mem_cons_self) rfl (e := signedAs bob.publicKey bob.id) rfl rfl
  have htrim : Text.trimmed bob.id = bob.id := by decide +kernel
  rw [if_pos htrim] at hbehind
  exact ⟨hcontains, hget, hbehind⟩

/-- The roster takes a guardian whose name has a blank in front and finds him by it, but not behind
an envelope that states the very same name under his key. -/
theorem padded_name_leads_nowhere : ofGuardians [padded, bob] = .ok paddedRoster ∧
    padded ∈ [padded, bob] ∧ padded.revoked = false ∧
      (signedAs [1] " alice").publicKey = padded.publicKey ∧
      (signedAs [1] " alice").guardianId = some padded.id ∧
      paddedRoster.contains padded.id = true ∧ paddedRoster.get? padded.id = some padded ∧
      paddedRoster.behind? (signedAs [1] " alice") ≠ some padded :=
  ⟨ofGuardians_padded, List.mem_cons_self, rfl, rfl, rfl, by decide +kernel, by decide +kernel,
    by decide +kernel⟩

end Roster
end Countersign
