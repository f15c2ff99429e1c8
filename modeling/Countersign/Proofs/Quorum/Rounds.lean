import Countersign.Proofs.Journal.Adding
import Countersign.Proofs.Setup.Settings
import Countersign.Proofs.Tally.Counting
import Countersign.Proofs.Trail.Delivery
import Countersign.Quorum

/-! What a round does. An authorization is what the envelopes and the journal say when it is made;
an execution is recorded only for one that was made with enough approvals and before any other. -/

namespace Countersign

/-- Enough guardians of the roster have approved, each by an envelope of his own key. -/
structure Quorum.IsApproved (q : Quorum) (d : Digest) (envelopes : List Envelope)
    (guardians : List Guardian) : Prop where
  distinct : guardians.Pairwise fun g g' => g.id ≠ g'.id ∧ g.publicKey ≠ g'.publicKey
  needed : 1 ≤ q.settings.threshold
  enough : q.settings.threshold ≤ guardians.length
  active : ∀ g ∈ guardians, g ∈ q.roster.guardians ∧ g.revoked = false
  approves : ∀ g ∈ guardians, ∃ e ∈ envelopes, g.Approves d e

/-- The settings are those of a file, and the roster is that of the file which they name. -/
structure Quorum.IsLoaded (q : Quorum) : Prop where
  settings : ∃ disk path, Settings.load disk path = .ok q.settings
  roster : ∃ disk, Roster.load disk q.settings.rosterPath = .ok q.roster

theorem Quorum.IsLoaded.needed {q : Quorum} (h : q.IsLoaded) : 1 ≤ q.settings.threshold := by
  obtain ⟨_, _, hs⟩ := h.settings
  exact Settings.needed_of_load hs

theorem Quorum.IsLoaded.exists_guardians {q : Quorum} (h : q.IsLoaded) :
    ∃ guardians, Roster.ofGuardians guardians = .ok q.roster := by
  obtain ⟨_, hr⟩ := h.roster
  exact Roster.exists_guardians_of_load hr

namespace Quorum

variable {q after : Quorum} {site site' : Site} {path : String}

theorem parts_eq_ok {disk : Disk} {settings : Settings} {roster : Roster} {journal : Journal}
    (h : parts disk path = .ok (settings, roster, journal)) :
    Settings.load disk path = .ok settings ∧ Roster.load disk settings.rosterPath = .ok roster := by
  unfold parts at h
  obtain ⟨settings', hs, h⟩ := exists_of_bind_eq_ok h
  obtain ⟨roster', hr, h⟩ := exists_of_bind_eq_ok h
  obtain ⟨_, _, h⟩ := exists_of_bind_eq_ok h
  simp only [pure, Except.pure, Except.ok.injEq, Prod.mk.injEq] at h
  obtain ⟨rfl, rfl, rfl⟩ := h
  exact ⟨of_mapError_eq_ok hs, of_mapError_eq_ok hr⟩

theorem isLoaded_of_load (h : load site path = (site', .ok q)) :
    q.IsLoaded ∧ site'.clock = site.clock := by
  unfold load at h
  split at h
  · simp at h
  · rename_i settings roster journal hp
    obtain ⟨hs, hr⟩ := parts_eq_ok hp
    simp only [Prod.mk.injEq] at h
    obtain ⟨rfl, h⟩ := h
    cases ht : (openTrail site.disk settings).2 with
    | error fault => simp [ht, Except.map] at h
    | ok trail =>
      simp only [ht, Except.map, Except.ok.injEq] at h
      obtain rfl := h
      exact ⟨⟨⟨site.disk, path, hs⟩, site.disk, hr⟩, rfl⟩

/-! ### Authorizing -/

theorem authorize_eq_ok {request : Request} {a : Authorization}
    (h : q.authorize site request = (site', after, .ok a)) :
    ∃ inbox journal warnings between,
      Intent.ofRequest request = .ok a.intent ∧
      Envelope.Inbox.load? (q.trail.emit site (q.context a.tally.digest) .intentReceived).disk
        q.settings.envelopeDirectory = some inbox ∧
      between = q.trail.emit (q.trail.emit site (q.context a.tally.digest) .intentReceived)
        (q.context a.tally.digest) (.signaturesLoaded inbox.envelopes.length) ∧
      q.journal.reload between.disk = .ok (journal, warnings) ∧
      a.tally = Tally.ofEnvelopes q.roster (a.intent.digest (some q.domain)) q.settings.threshold
        (.ofRecord? (journal.find? (a.intent.digest (some q.domain)).text)) inbox.envelopes ∧
      a.trail = q.trail ∧ after = { q with journal } ∧
      site' = q.trail.emit between (q.context a.tally.digest) (closing a.tally) := by
  unfold authorize at h
  split at h
  · simp [fail] at h
  · rename_i intent hi
    simp only at h
    split at h
    · simp [fail] at h
    · rename_i inbox hinbox
      unfold count at h
      split at h
      · simp [fail] at h
      · rename_i journal warnings hr
        simp only [Prod.mk.injEq, Except.ok.injEq] at h
        obtain ⟨rfl, rfl, rfl⟩ := h
        exact ⟨inbox, journal, warnings, _, hi, hinbox, rfl, hr, rfl, rfl, rfl, rfl⟩

/-- Authorizing leaves the journal's file alone, whatever comes of it. -/
theorem keeps_authorize {request : Request} {result : Except RoundFault Authorization}
    (hh : site.disk.Houses path) (hc : q.trail.IsClear site.disk path)
    (h : q.authorize site request = (site', after, result)) :
    q.trail.Keeps path site site' ∧
      ∃ journal, after = { q with journal } ∧ journal.path = q.journal.path := by
  have hk := Trail.Keeps.refl hh hc
  unfold authorize at h
  split at h
  · simp only [fail, Prod.mk.injEq] at h
    obtain ⟨rfl, rfl, _⟩ := h
    exact ⟨hk.emit _ _, q.journal, rfl, rfl⟩
  · simp only at h
    split at h
    · simp only [fail, Prod.mk.injEq] at h
      obtain ⟨rfl, rfl, _⟩ := h
      exact ⟨(hk.emit _ _).emit _ _, q.journal, rfl, rfl⟩
    · unfold count at h
      split at h
      · simp only [fail, Prod.mk.injEq] at h
        obtain ⟨rfl, rfl, _⟩ := h
        exact ⟨((hk.emit _ _).emit _ _).emit _ _, q.journal, rfl, rfl⟩
      · rename_i journal warnings hr
        simp only [Prod.mk.injEq] at h
        obtain ⟨rfl, rfl, _⟩ := h
        exact ⟨((hk.emit _ _).emit _ _).emit _ _, journal, rfl, (Journal.open_eq_ok_iff.mp hr).1⟩

theorem IsLoaded.isApproved (hq : q.IsLoaded) {d : Digest} {replay : Replay}
    {envelopes : List Envelope}
    (h : (Tally.ofEnvelopes q.roster d q.settings.threshold replay envelopes).isMet = true) :
    q.IsApproved d envelopes
      ((Tally.ofEnvelopes q.roster d q.settings.threshold replay envelopes).approvals.map
        (·.guardian)) := by
  obtain ⟨guardians, hg⟩ := hq.exists_guardians
  have hr := Tally.isUsable_of_ofGuardians hg
  have hpair := hr.pairwise_sift (d := d) [] envelopes
  simp only [Tally.isMet, Bool.and_eq_true, decide_eq_true_eq] at h
  have henough : q.settings.threshold ≤
      (Tally.ofEnvelopes q.roster d q.settings.threshold replay envelopes).approvals.length := h.1
  refine ⟨List.pairwise_map.mpr hpair, hq.needed, by rwa [List.length_map], fun g hm => ?_,
    fun g hm => ?_⟩
  · obtain ⟨approval, ha, rfl⟩ := List.mem_map.mp hm
    have hmem := (hr.approval_of_mem_sift ha).1
    refine ⟨hmem, ?_⟩
    rw [(Roster.ofGuardians_eq_ok hg).2.1, List.mem_filter] at hmem
    simpa using hmem.2
  · obtain ⟨approval, ha, rfl⟩ := List.mem_map.mp hm
    obtain ⟨_, _, he, happ⟩ := hr.approval_of_mem_sift ha
    exact ⟨approval.envelope, he, happ⟩

/-- The authorization is what a request came to when the files were those of the site. -/
structure Issues (q : Quorum) (request : Request) (site : Site) (envelopes : List Envelope)
    (a : Authorization) : Prop where
  intent : Intent.ofRequest request = .ok a.intent
  digest : a.tally.digest = a.intent.digest (some q.domain)
  inbox : ∃ inbox, Envelope.Inbox.load?
    (q.trail.emit site (q.context a.tally.digest) .intentReceived).disk
    q.settings.envelopeDirectory = some inbox ∧ inbox.envelopes = envelopes
  approved : a.tally.isMet = true →
    q.IsApproved a.tally.digest envelopes (a.tally.approvals.map (·.guardian))

theorem Issues.setJournal {request : Request} {envelopes : List Envelope} {a : Authorization}
    (h : q.Issues request site envelopes a) (journal : Journal) :
    { q with journal }.Issues request site envelopes a := by
  refine ⟨h.intent, h.digest, h.inbox, fun hmet => ?_⟩
  obtain ⟨hdistinct, hneeded, henough, hactive, happroves⟩ := h.approved hmet
  exact ⟨hdistinct, hneeded, henough, hactive, happroves⟩

theorem IsLoaded.exists_issues (hq : q.IsLoaded) {request : Request} {a : Authorization}
    (h : q.authorize site request = (site', after, .ok a)) :
    (∃ envelopes, q.Issues request site envelopes a) ∧ a.trail = q.trail := by
  obtain ⟨inbox, journal, _, _, hi, hinbox, _, _, ht, htrail, _, _⟩ := authorize_eq_ok h
  have hd : a.tally.digest = a.intent.digest (some q.domain) := by
    rw [ht]
    rfl
  refine ⟨⟨inbox.envelopes, hi, hd, ⟨inbox, hinbox, rfl⟩, fun hmet => ?_⟩, htrail⟩
  rw [ht] at hmet ⊢
  exact hq.isApproved hmet

/-- An intent whose execution the journal lists is found to be executed. -/
theorem isExecuted_of_authorize {records : List ExecutionRecord}
    (hs : Journal.Stands site.disk path records) (hp : Disk.LeadAlike q.journal.path path)
    (hc : q.trail.IsClear site.disk path) {request : Request} {a : Authorization}
    (h : q.authorize site request = (site', after, .ok a))
    (hr : ∃ r ∈ records, r.digest = a.tally.digest.text) : a.tally.replay.isExecuted = true := by
  obtain ⟨inbox, journal, warnings, between, _, _, rfl, hload, ht, _, _, _⟩ := authorize_eq_ok h
  have hk := ((Trail.Keeps.refl hs.houses hc).emit (q.context a.tally.digest) .intentReceived).emit
    (q.context a.tally.digest) (.signaturesLoaded inbox.envelopes.length)
  have hd : a.tally.digest = a.intent.digest (some q.domain) := by
    rw [ht]
    rfl
  have hm := ((hs.of_leavesAlone hk.leavesAlone).of_leadAlike hp.symm).mirrors_of_open hload
  have hex : journal.isExecuted (a.intent.digest (some q.domain)).text = true := by
    rw [hm.isExecuted_iff, Digest.normalForm_text, ← hd]
    exact hr
  obtain ⟨r, hf⟩ := Option.isSome_iff_exists.mp hex
  rw [ht, hf]
  rfl

/-! ### Recording -/

variable {a : Authorization} {txHash : String} {note : Option String}

/-- An execution that is recorded was authorized, and goes to the journal with its approvals. -/
theorem recordExecution_eq_ok {r : ExecutionRecord}
    (h : q.recordExecution site a txHash note = (site', after, .ok r)) :
    a.tally.isMet = true ∧ ∃ disk journal warnings,
      q.journal.record site.disk a.tally.digest.text (a.details txHash note) site.now.1 =
        (disk, journal, warnings, .ok r) ∧
      after = { q with journal } ∧
      site' = a.note { site with disk, ticks := site.ticks + 1 } (.executed txHash) := by
  unfold recordExecution at h
  simp only at h
  split at h
  · simp at h
  · split at h
    · simp at h
    · rename_i hmet
      obtain ⟨disk, journal, warnings, result, hrec⟩ : ∃ disk journal warnings result,
          q.journal.record site.disk a.tally.digest.text (a.details txHash note) site.now.1 =
            (disk, journal, warnings, result) := ⟨_, _, _, _, rfl⟩
      simp only [Site.now] at h hrec
      rw [hrec] at h
      cases result with
      | error fault => cases fault <;> simp at h
      | ok r' =>
        simp only [Prod.mk.injEq, Except.ok.injEq] at h
        obtain ⟨rfl, rfl, rfl⟩ := h
        exact ⟨by simpa using hmet, disk, journal, warnings, hrec, rfl, rfl⟩

/-- Where nothing is recorded, the fault is noted, and the journal is at most read again. -/
theorem recordExecution_eq_error {fault : RoundFault}
    (h : q.recordExecution site a txHash note = (site', after, .error fault)) :
    (∃ event, site' = a.note site event ∧ after = q) ∨
      ∃ disk journal warnings fault' event,
        q.journal.record site.disk a.tally.digest.text (a.details txHash note) site.now.1 =
          (disk, journal, warnings, .error fault') ∧
        after = { q with journal } ∧
        site' = a.note { site with disk, ticks := site.ticks + 1 } event := by
  unfold recordExecution at h
  simp only at h
  split at h
  · simp only [Prod.mk.injEq] at h
    obtain ⟨rfl, rfl, _⟩ := h
    exact .inl ⟨_, rfl, rfl⟩
  · split at h
    · simp only [Prod.mk.injEq] at h
      obtain ⟨rfl, rfl, _⟩ := h
      exact .inl ⟨_, rfl, rfl⟩
    · obtain ⟨disk, journal, warnings, result, hrec⟩ : ∃ disk journal warnings result,
          q.journal.record site.disk a.tally.digest.text (a.details txHash note) site.now.1 =
            (disk, journal, warnings, result) := ⟨_, _, _, _, rfl⟩
      simp only [Site.now] at h hrec
      rw [hrec] at h
      right
      cases result with
      | ok r => simp at h
      | error fault' =>
        cases fault' <;> simp only [Prod.mk.injEq] at h <;> obtain ⟨rfl, rfl, _⟩ := h <;>
          exact ⟨disk, journal, warnings, _, _, hrec, rfl, rfl⟩

/-- The journal's file gets the record of the execution, and then the execution is noted. -/
theorem replaces_recordExecution {records : List ExecutionRecord}
    (hs : Journal.Stands site.disk path records) (hp : Disk.LeadAlike q.journal.path path)
    (hc : a.trail.IsClear site.disk path) (hn : site.now.1.IsValid) {r : ExecutionRecord}
    (h : q.recordExecution site a txHash note = (site', after, .ok r)) :
    (∃ between content, site.disk.Replaces between path content ∧
      between.LeavesAlone site'.disk path) ∧
    Journal.Stands site'.disk path (records ++ [r]) ∧ r.digest = a.tally.digest.text ∧
      r.approvals = some a.tally.approvingIds ∧ site'.clock = site.clock ∧
      ∃ journal, after = { q with journal } ∧ journal.path = q.journal.path := by
  obtain ⟨_, disk, journal, warnings, hrec, rfl, rfl⟩ := recordExecution_eq_ok h
  obtain ⟨rfl, hown, hmirrors, hreplaced⟩ := (hs.of_leadAlike hp.symm).record rfl hn hrec
  have hstands := hown.of_leadAlike hp
  have hrep := hp.replaces hreplaced
  have hclear : a.trail.IsClear disk path := hc.of_replaces hrep
  let between : Site := { site with disk, ticks := site.ticks + 1 }
  have hrefl : a.trail.Keeps path between between := .refl hstands.houses hclear
  have hkeeps := hrefl.emit a.context (.executed txHash)
  exact ⟨⟨disk, _, hrep, hkeeps.leavesAlone⟩, hstands.of_leavesAlone hkeeps.leavesAlone,
    Digest.normalForm_text a.tally.digest, rfl, hkeeps.clock, journal, rfl, hmirrors.path⟩

theorem keeps_recordExecution {records : List ExecutionRecord}
    (hs : Journal.Stands site.disk path records) (hp : Disk.LeadAlike q.journal.path path)
    (hc : a.trail.IsClear site.disk path) {fault : RoundFault}
    (h : q.recordExecution site a txHash note = (site', after, .error fault)) :
    a.trail.Keeps path site site' ∧
      ∃ journal, after = { q with journal } ∧ journal.path = q.journal.path := by
  rcases recordExecution_eq_error h with ⟨event, rfl, rfl⟩ |
    ⟨disk, journal, warnings, fault', event, hrec, rfl, rfl⟩
  · exact ⟨(Trail.Keeps.refl hs.houses hc).emit _ _, _, rfl, rfl⟩
  · obtain ⟨hown, hj⟩ := (hs.of_leadAlike hp.symm).record_error rfl hrec
    have hl := hp.leavesAlone hown
    have hkeeps : a.trail.Keeps path site { site with disk, ticks := site.ticks + 1 } :=
      ⟨hl, hc.of_leavesAlone hs.houses hl, rfl⟩
    refine ⟨hkeeps.emit _ _, journal, rfl, ?_⟩
    rcases hj with rfl | hm
    · rfl
    · exact hm.path

theorem recordExecution_of_isExecuted (h : a.tally.replay.isExecuted = true) :
    q.recordExecution site a txHash note =
      (a.noteFailure site "refusing to record a replayed intent", q,
        .error (.replayed a.tally.digest.text)) := by
  simp [recordExecution, h]

end Quorum
end Countersign
