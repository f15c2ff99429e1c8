import Countersign.Proofs.Quorum.Files

/-! Sessions of several processes that share a journal. Whatever they ask for, and however old the
authorizations are that they come back with, no digest is executed twice or without its quorum. -/

namespace Countersign

/-- The site of the sessions, what each of them is, and the authorizations that they have made. -/
structure Sessions where
  site : Site
  session : Nat → Option Quorum := fun _ => none
  issued : List (Nat × Authorization) := []

namespace Sessions

def setSession (s : Sessions) (i : Nat) (q : Quorum) (site : Site) : Sessions :=
  { s with site, session := fun k => if k = i then some q else s.session k }

/-- What has been achieved by a step. An authorization stands with the site it was asked for at,
and a record with the session that had made its authorization. -/
inductive Call where
  | authorized (i : Nat) (request : Request) (site : Site) (a : Authorization)
  | recorded (i k : Nat) (a : Authorization) (r : ExecutionRecord)

/-- The digest whose execution has been recorded. -/
def Call.executed? : Call → Option Digest
  | authorized .. => none
  | recorded _ _ a _ => some a.tally.digest

def Call.record? : Call → Option ExecutionRecord
  | authorized .. => none
  | recorded _ _ _ r => some r

/-- One step of one session. A session is of the journal at the path, whichever text its settings
have for that path, and its trail goes to no file of the journal; what else happens to the files
leaves the journal alone. -/
inductive Step (path : String) : Sessions → Option Call → Sessions → Prop where
  | loaded {s : Sessions} {site : Site} {settingsPath : String} {q : Quorum} (i : Nat)
      (hi : s.session i = none) (h : Quorum.load s.site settingsPath = (site, .ok q))
      (hp : Disk.LeadAlike q.journal.path path) (hl : s.site.disk.LeavesAlone site.disk path)
      (hc : q.trail.IsClear site.disk path) : Step path s none (s.setSession i q site)
  | authorized {s : Sessions} {site : Site} {q after : Quorum} {request : Request}
      {a : Authorization} (i : Nat) (hi : s.session i = some q)
      (h : q.authorize s.site request = (site, after, .ok a)) :
      Step path s (some (.authorized i request s.site a))
        { s.setSession i after site with issued := s.issued ++ [(i, a)] }
  | declined {s : Sessions} {site : Site} {q after : Quorum} {request : Request}
      {fault : RoundFault} (i : Nat) (hi : s.session i = some q)
      (h : q.authorize s.site request = (site, after, .error fault)) :
      Step path s none (s.setSession i after site)
  | recorded {s : Sessions} {site : Site} {q after : Quorum} {a : Authorization} {txHash : String}
      {note : Option String} {r : ExecutionRecord} (i k : Nat) (hi : s.session i = some q)
      (ha : (k, a) ∈ s.issued)
      (h : q.recordExecution s.site a txHash note = (site, after, .ok r)) :
      Step path s (some (.recorded i k a r)) (s.setSession i after site)
  | refused {s : Sessions} {site : Site} {q after : Quorum} {a : Authorization} {txHash : String}
      {note : Option String} {fault : RoundFault} (i k : Nat) (hi : s.session i = some q)
      (ha : (k, a) ∈ s.issued)
      (h : q.recordExecution s.site a txHash note = (site, after, .error fault)) :
      Step path s none (s.setSession i after site)
  | noted {s : Sessions} {a : Authorization} (k : Nat) (ha : (k, a) ∈ s.issued) (event : Event) :
      Step path s none { s with site := a.note s.site event }
  /-- Other files change, or a call that fails leaves something behind. -/
  | elsewhere {s : Sessions} {disk : Disk} (hl : s.site.disk.LeavesAlone disk path) :
      Step path s none { s with site := { s.site with disk } }

/-- A run, with what has been achieved in it. -/
inductive Run (path : String) : Sessions → List Call → Sessions → Prop where
  | start (s : Sessions) : Run path s [] s
  | step {s between after : Sessions} {past : List Call} {call : Option Call}
      (h : Run path s past between) (hs : Step path between call after) :
      Run path s (past ++ call.toList) after

/-- The journal holds these records, and everything that writes to files keeps clear of it. -/
structure Consistent (path : String) (records : List ExecutionRecord) (s : Sessions) : Prop where
  stands : Journal.Stands s.site.disk path records
  clock : ∀ n, (s.site.clock n).IsValid
  session : ∀ i q, s.session i = some q →
    q.IsLoaded ∧ Disk.LeadAlike q.journal.path path ∧ q.trail.IsClear s.site.disk path
  issued : ∀ i a, (i, a) ∈ s.issued → a.trail.IsClear s.site.disk path

variable {path : String} {records more : List ExecutionRecord} {s after : Sessions}

/-- The site moves on to one that everything keeps clear of the journal on. -/
theorem Consistent.move (h : Consistent path records s) {site : Site}
    (hs : Journal.Stands site.disk path more) (hclock : site.clock = s.site.clock)
    (hmono : ∀ trail : Trail, trail.IsClear s.site.disk path → trail.IsClear site.disk path) :
    Consistent path more { s with site } := by
  refine ⟨hs, fun n => ?_, fun i q hi => ?_, fun i a ha => hmono _ (h.issued i a ha)⟩
  · rw [hclock]
    exact h.clock n
  · obtain ⟨hq, hp, hc⟩ := h.session i q hi
    exact ⟨hq, hp, hmono _ hc⟩

theorem Consistent.of_leavesAlone (h : Consistent path records s) {site : Site}
    (hl : s.site.disk.LeavesAlone site.disk path) (hclock : site.clock = s.site.clock) :
    Consistent path records { s with site } :=
  h.move (h.stands.of_leavesAlone hl) hclock fun _ hc => hc.of_leavesAlone h.stands.houses hl

/-- A session may read the journal again, and becomes another in nothing else. -/
theorem Consistent.setSession {site : Site} (h : Consistent path records { s with site }) {i : Nat}
    {q : Quorum} (hi : s.session i = some q) {journal : Journal}
    (hj : journal.path = q.journal.path) :
    Consistent path records (s.setSession i { q with journal } site) := by
  refine ⟨h.stands, h.clock, fun k other hk => ?_, h.issued⟩
  simp only [Sessions.setSession] at hk
  split at hk
  · obtain rfl := Option.some.inj hk
    obtain ⟨hq, hp, hc⟩ := h.session i q hi
    exact ⟨⟨hq.settings, hq.roster⟩, hj ▸ hp, hc⟩
  · exact h.session k other hk

/-- The sessions that there are stay, but for what they know of the journal. -/
def KeepsSessions (s after : Sessions) : Prop :=
  ∀ k q, s.session k = some q → ∃ journal, after.session k = some { q with journal }

theorem keepsSessions_of_eq (h : after.session = s.session) : KeepsSessions s after :=
  fun k q hk => ⟨q.journal, by rw [h, hk]⟩

theorem keepsSessions_setSession {i : Nat} {q : Quorum} (hi : s.session i = some q)
    (journal : Journal) (site : Site) :
    KeepsSessions s (s.setSession i { q with journal } site) := by
  intro k other hk
  by_cases hki : k = i
  · subst hki
    obtain rfl := Option.some.inj (hi.symm.trans hk)
    exact ⟨journal, by simp [Sessions.setSession]⟩
  · exact ⟨other.journal, by simp [Sessions.setSession, hki, hk]⟩

/-- A step adds to the journal what it records, and nothing else. -/
theorem Consistent.step (h : Consistent path records s) {call : Option Call}
    (hs : Step path s call after) :
    Consistent path (records ++ (call.bind Call.record?).toList) after ∧ KeepsSessions s after := by
  have hsame : ∀ {other : Sessions}, Consistent path records other →
      Consistent path (records ++ (none : Option ExecutionRecord).toList) other :=
    fun ho => by simpa using ho
  cases hs with
  | @loaded site settingsPath q i hi hq hp hl hc =>
    obtain ⟨hloaded, hclock⟩ := Quorum.isLoaded_of_load hq
    have hmoved := h.of_leavesAlone hl hclock
    refine ⟨hsame ⟨hmoved.stands, hmoved.clock, fun k other hk => ?_, hmoved.issued⟩,
      fun k other hk => ⟨other.journal, ?_⟩⟩
    · simp only [Sessions.setSession] at hk
      split at hk
      · obtain rfl := Option.some.inj hk
        exact ⟨hloaded, hp, hc⟩
      · exact hmoved.session k other hk
    · -- a session is loaded where there is none yet
      have hki : k ≠ i := by
        rintro rfl
        rw [hi] at hk
        exact nomatch hk
      simp [Sessions.setSession, hki, hk]
  | @authorized site q after request a i hi ha =>
    obtain ⟨hq, _, hc⟩ := h.session i q hi
    obtain ⟨hkeeps, journal, rfl, hj⟩ := Quorum.keeps_authorize h.stands.houses hc ha
    have hset := (h.of_leavesAlone hkeeps.leavesAlone hkeeps.clock).setSession hi hj
    have htrail := (hq.exists_issues ha).2
    refine ⟨hsame ⟨hset.stands, hset.clock, hset.session, fun k other hk => ?_⟩,
      keepsSessions_setSession hi journal site⟩
    rcases List.mem_append.mp hk with hk | hk
    · exact hset.issued k other hk
    · obtain ⟨rfl, rfl⟩ := Prod.mk.inj (List.mem_singleton.mp hk)
      rw [htrail]
      exact hkeeps.clear
  | @declined site q after request fault i hi ha =>
    obtain ⟨_, _, hc⟩ := h.session i q hi
    obtain ⟨hkeeps, journal, rfl, hj⟩ := Quorum.keeps_authorize h.stands.houses hc ha
    exact ⟨hsame ((h.of_leavesAlone hkeeps.leavesAlone hkeeps.clock).setSession hi hj),
      keepsSessions_setSession hi journal site⟩
  | @recorded site q after a txHash note r i k hi ha hr =>
    obtain ⟨_, hp, _⟩ := h.session i q hi
    obtain ⟨⟨between, content, hrep, hl⟩, hstands, _, _, hclock, journal, rfl, hj⟩ :=
      Quorum.replaces_recordExecution h.stands hp (h.issued k a ha) (h.clock s.site.ticks) hr
    have hmoved : Consistent path (records ++ [r]) { s with site } :=
      h.move hstands hclock fun _ hc => (hc.of_replaces hrep).of_leavesAlone hrep.houses hl
    exact ⟨hmoved.setSession hi hj, keepsSessions_setSession hi journal site⟩
  | @refused site q after a txHash note fault i k hi ha hr =>
    obtain ⟨_, hp, _⟩ := h.session i q hi
    obtain ⟨hkeeps, journal, rfl, hj⟩ :=
      Quorum.keeps_recordExecution h.stands hp (h.issued k a ha) hr
    exact ⟨hsame ((h.of_leavesAlone hkeeps.leavesAlone hkeeps.clock).setSession hi hj),
      keepsSessions_setSession hi journal site⟩
  | @noted a k ha event =>
    have hkeeps := (Trail.Keeps.refl h.stands.houses (h.issued k a ha)).emit a.context event
    exact ⟨hsame (h.of_leavesAlone hkeeps.leavesAlone hkeeps.clock), keepsSessions_of_eq rfl⟩
  | @elsewhere disk hl =>
    have hmoved : Consistent path records { s with site := { s.site with disk } } :=
      h.of_leavesAlone hl rfl
    exact ⟨hsame hmoved, keepsSessions_of_eq rfl⟩

/-- Along a run the journal keeps what it had and gets what is recorded. -/
theorem Consistent.run (h : Consistent path records s) {past : List Call}
    (hr : Run path s past after) :
    Consistent path (records ++ past.filterMap Call.record?) after := by
  induction hr with
  | start => simpa using h
  | @step between after past call hr hs ih =>
    have hstep := (ih.step hs).1
    rw [List.filterMap_append, ← List.append_assoc]
    cases call with
    | none => simpa using hstep
    | some call => cases call <;> simpa [Call.record?, List.filterMap_cons] using hstep

/-- The session that has made an authorization, and what it was made from. -/
def IsIssued (calls : List Call) (s : Sessions) (k : Nat) (a : Authorization) : Prop :=
  ∃ q request site envelopes, s.session k = some q ∧ Call.authorized k request site a ∈ calls ∧
    q.Issues request site envelopes a

/-- What has been recorded is the execution of an intent that was authorized. -/
def IsRecorded (s : Sessions) (k : Nat) (a : Authorization) (r : ExecutionRecord) : Prop :=
  (k, a) ∈ s.issued ∧ a.tally.isMet = true ∧ r.digest = a.tally.digest.text ∧
    r.approvals = some a.tally.approvingIds

/-- The authorizations and the records of the sessions are those of the calls. -/
structure Accounts (calls : List Call) (s : Sessions) : Prop where
  issued : ∀ k a, (k, a) ∈ s.issued → IsIssued calls s k a
  recorded : ∀ i k a r, Call.recorded i k a r ∈ calls → IsRecorded s k a r

theorem IsIssued.mono {calls more : List Call} {k : Nat} {a : Authorization}
    (h : IsIssued calls s k a) (hk : KeepsSessions s after) :
    IsIssued (calls ++ more) after k a := by
  obtain ⟨q, request, site, envelopes, hq, hcall, hissues⟩ := h
  obtain ⟨journal, hj⟩ := hk k q hq
  exact ⟨{ q with journal }, request, site, envelopes, hj, List.mem_append_left more hcall,
    hissues.setJournal journal⟩

theorem Accounts.extend {calls : List Call} (h : Accounts calls s) (hk : KeepsSessions s after)
    {call : Option Call} (hsub : s.issued ⊆ after.issued)
    (hissued : ∀ k a, (k, a) ∈ after.issued → (k, a) ∉ s.issued →
      IsIssued (calls ++ call.toList) after k a)
    (hrecorded : ∀ i k a r, call = some (.recorded i k a r) → IsRecorded after k a r) :
    Accounts (calls ++ call.toList) after := by
  refine ⟨fun k a ha => ?_, fun i k a r hr => ?_⟩
  · by_cases hold : (k, a) ∈ s.issued
    · exact (h.issued k a hold).mono hk
    · exact hissued k a ha hold
  · rcases List.mem_append.mp hr with hr | hr
    · obtain ⟨ha, hall⟩ := h.recorded i k a r hr
      exact ⟨hsub ha, hall⟩
    · exact hrecorded i k a r (Option.mem_toList.mp hr)

theorem Accounts.step {calls : List Call} (h : Accounts calls s) (hc : Consistent path records s)
    {call : Option Call} (hs : Step path s call after) :
    Accounts (calls ++ call.toList) after := by
  have hk := (hc.step hs).2
  cases hs with
  | @authorized site q next request a i hi ha =>
    obtain ⟨⟨envelopes, hissues⟩, _⟩ := (hc.session i q hi).1.exists_issues ha
    refine h.extend hk (List.subset_append_left _ _) (fun k other ho hnew => ?_)
      (fun _ _ _ _ he => nomatch he)
    rcases List.mem_append.mp ho with ho | ho
    · exact absurd ho hnew
    · obtain ⟨rfl, rfl⟩ := Prod.mk.inj (List.mem_singleton.mp ho)
      obtain ⟨journal, hj⟩ := hk k q hi
      exact ⟨{ q with journal }, request, s.site, envelopes, hj, by simp,
        hissues.setJournal journal⟩
  | @recorded site q next a txHash note r i k hi ha hr =>
    obtain ⟨_, hp, _⟩ := hc.session i q hi
    obtain ⟨_, _, hdigest, happrovals, _⟩ :=
      Quorum.replaces_recordExecution hc.stands hp (hc.issued k a ha) (hc.clock s.site.ticks) hr
    refine h.extend hk (List.Subset.refl _) (fun _ _ ho hnew => absurd ho hnew)
      (fun _ _ _ _ he => ?_)
    cases he
    exact ⟨ha, (Quorum.recordExecution_eq_ok hr).1, hdigest, happrovals⟩
  | _ =>
    exact h.extend hk (List.Subset.refl _) (fun _ _ ho hnew => absurd ho hnew)
      (fun _ _ _ _ he => nomatch he)

theorem Accounts.run {calls past : List Call} (h : Accounts calls s)
    (hc : Consistent path records s) (hr : Run path s past after) :
    Accounts (calls ++ past) after := by
  induction hr with
  | start => simpa using h
  | @step between after past call hr hs ih =>
    rw [← List.append_assoc]
    exact ih.step (hc.run hr) hs

theorem issued_subset_of_run {past : List Call} (h : Run path s past after) :
    s.issued ⊆ after.issued := by
  induction h with
  | start => exact List.Subset.refl _
  | step hr hs ih =>
    cases hs with
    | authorized => exact List.Subset.trans ih (List.subset_append_left _ _)
    | _ => exact ih

/-- The journal can be read, the clock works, and there are no sessions yet. -/
structure IsStart (path : String) (loaded : Loaded) (s : Sessions) : Prop where
  houses : s.site.disk.Houses path
  reads : Journal.readFile s.site.disk path = .ok loaded
  clock : ∀ n, (s.site.clock n).IsValid
  session : ∀ i, s.session i = none
  issued : s.issued = []

theorem IsStart.consistent {loaded : Loaded} (h : IsStart path loaded s) :
    Consistent path loaded.records s ∧ Accounts [] s := by
  refine ⟨⟨Journal.stands_of_readFile h.houses h.reads, h.clock, fun i q hi => ?_,
    fun i a ha => ?_⟩, fun i a ha => ?_, fun i k a r hr => nomatch hr⟩
  · rw [h.session i] at hi
    exact nomatch hi
  · rw [h.issued] at ha
    exact nomatch ha
  · rw [h.issued] at ha
    exact nomatch ha

theorem Accounts.map_digest {calls : List Call} (h : Accounts calls s) :
    (calls.filterMap Call.record?).map (·.digest) =
      (calls.filterMap Call.executed?).map Digest.text := by
  have hall : ∀ call ∈ calls, (call.record?).map (·.digest) = (call.executed?).map Digest.text := by
    intro call hm
    cases call with
    | authorized => rfl
    | recorded i k a r => exact congrArg some (h.recorded i k a r hm).2.2.1
  rw [List.map_filterMap, List.map_filterMap]
  exact List.filterMap_congr hall

theorem IsStart.nodup_executed {start : Sessions} {loaded : Loaded}
    (hstart : IsStart path loaded start) {past : List Call} (hrun : Run path start past s) :
    (loaded.records.map (·.digest) ++ (past.filterMap Call.executed?).map Digest.text).Nodup := by
  obtain ⟨hc, hacc⟩ := hstart.consistent
  have ha := hacc.run hc hrun
  rw [List.nil_append] at ha
  have hd := (hc.run hrun).stands.listable.distinct
  rwa [List.map_append, ha.map_digest] at hd

/-- Once a digest has been executed, no authorization for it can be recorded any more, however old
it is and whoever comes back with it. -/
theorem IsStart.exists_fault {start : Sessions} {loaded : Loaded}
    (hstart : IsStart path loaded start) {past : List Call} (hrun : Run path start past s)
    {i k : Nat} {q : Quorum} {a : Authorization} (hi : s.session i = some q)
    (ha : (k, a) ∈ s.issued) (hd : a.tally.digest ∈ past.filterMap Call.executed?)
    (txHash : String) (note : Option String) :
    ∃ site after fault, q.recordExecution s.site a txHash note = (site, after, .error fault) := by
  obtain ⟨site, after, result, h⟩ : ∃ site after result,
      q.recordExecution s.site a txHash note = (site, after, result) := ⟨_, _, _, rfl⟩
  cases result with
  | error fault => exact ⟨site, after, fault, h⟩
  | ok r =>
    have htwice := hstart.nodup_executed (hrun.step (.recorded i k hi ha h))
    have hcalls : (past ++ (some (Call.recorded i k a r)).toList).filterMap Call.executed? =
        past.filterMap Call.executed? ++ [a.tally.digest] := List.filterMap_append
    rw [hcalls, List.map_append, ← List.append_assoc] at htwice
    have hapart := (List.nodup_append.mp htwice).2.2
    exact absurd rfl (hapart _ (List.mem_append_right _ (List.mem_map_of_mem hd)) _
      (List.mem_singleton_self _))

/-- However many sessions share a journal, and in whatever order they ask for authorizations and
come back with them: what is recorded was approved by a quorum of the session's own guardians; no
digest is executed twice; and once it is, whoever asks for it learns so, and records nothing. -/
theorem run_is_safe {start : Sessions} {loaded : Loaded} (hstart : IsStart path loaded start)
    {past : List Call} (hrun : Run path start past s) :
    (∀ i k a r, Call.recorded i k a r ∈ past → ∃ q request site envelopes guardians,
      s.session k = some q ∧ q.IsLoaded ∧ Call.authorized k request site a ∈ past ∧
      q.Issues request site envelopes a ∧ q.IsApproved a.tally.digest envelopes guardians ∧
      r.approvals = some (guardians.map (·.id)) ∧ r.digest = a.tally.digest.text) ∧
    (loaded.records.map (·.digest) ++ (past.filterMap Call.executed?).map Digest.text).Nodup ∧
    ∀ d : Digest, d.text ∈ loaded.records.map (·.digest) ∨ d ∈ past.filterMap Call.executed? →
      ∀ j q request intent, s.session j = some q → Intent.ofRequest request = .ok intent →
        intent.digest (some q.domain) = d →
      ∀ site a next, Step path s (some (.authorized j request site a)) next →
        a.tally.replay.isExecuted = true ∧ a.isAuthorized = false ∧
        ∀ more later, Run path next more later → ∀ (q' : Quorum) txHash note, ∃ site',
          q'.recordExecution later.site a txHash note = (site', q', .error (.replayed d.text)) ∧
          Journal.readFile site'.disk path = Journal.readFile later.site.disk path := by
  obtain ⟨hc, hacc⟩ := hstart.consistent
  have hs := hc.run hrun
  have ha := hacc.run hc hrun
  rw [List.nil_append] at ha
  have hdigests := ha.map_digest
  refine ⟨fun i k a r hr => ?_, ?_,
    fun d hd j q request intent hj hintent hdigest site a next hstep => ?_⟩
  · obtain ⟨hissued, hmet, hdigest, happrovals⟩ := ha.recorded i k a r hr
    obtain ⟨q, request, site, envelopes, hq, hcall, hissues⟩ := ha.issued k a hissued
    refine ⟨q, request, site, envelopes, a.tally.approvals.map (·.guardian), hq,
      (hs.session k q hq).1, hcall, hissues, hissues.approved hmet, ?_, hdigest⟩
    rw [happrovals, List.map_map]
    rfl
  · exact hstart.nodup_executed hrun
  · have hlisted : ∃ r ∈ loaded.records ++ past.filterMap Call.record?, r.digest = d.text := by
      have hmem : d.text ∈ (loaded.records ++ past.filterMap Call.record?).map (·.digest) := by
        rw [List.map_append, hdigests]
        rcases hd with hd | hd
        · exact List.mem_append_left _ hd
        · exact List.mem_append_right _ (List.mem_map_of_mem hd)
      exact List.mem_map.mp hmem
    have hnext := (hs.step hstep).1
    cases hstep with
    | @authorized site q₁ after _ _ _ hi hauth =>
      obtain rfl := Option.some.inj (hi.symm.trans hj)
      obtain ⟨hq, hp, hclear⟩ := hs.session j q₁ hi
      obtain ⟨⟨envelopes, hissues⟩, _⟩ := hq.exists_issues hauth
      obtain rfl : a.intent = intent := Except.ok.inj (hissues.intent.symm.trans hintent)
      have hsame : a.tally.digest = d := hissues.digest.trans hdigest
      subst hsame
      have hex := Quorum.isExecuted_of_authorize hs.stands hp hclear hauth hlisted
      have hrefused : a.isAuthorized = false := by
        simp [Authorization.isAuthorized, Tally.isMet, hex]
      refine ⟨hex, hrefused, fun more later hmore q' txHash note => ?_⟩
      have hlater := hnext.run hmore
      have hstill := hlater.issued j a (issued_subset_of_run hmore (by simp))
      obtain ⟨r, hr, _⟩ := hlisted
      have hr' : r ∈ loaded.records ++ past.filterMap Call.record? ++
          (Option.bind (some (Call.authorized j request s.site a)) Call.record?).toList ++
          more.filterMap Call.record? := List.mem_append_left _ (List.mem_append_left _ hr)
      obtain ⟨number, content, hfile⟩ := hlater.stands.exists_file_of_mem hr'
      have hkeeps := (Trail.Keeps.refl hlater.stands.houses hstill).emit a.context
        (.failure "refusing to record a replayed intent")
      exact ⟨_, Quorum.recordExecution_of_isExecuted hex,
        Journal.readFile_of_leavesAlone hkeeps.leavesAlone hfile⟩

/-- Settings by which one approval is enough. Their files stand beside them. -/
def settingsText : String :=
  "\x7b\"chainId\":1,\"contractAddress\":\"0x0000000000000000000000000000000000000000\"," ++
    "\"threshold\":1,\"registryPath\":\"r\",\"ledgerPath\":\"j\",\"envelopeDir\":\"e\"\x7d"

/-- What the settings make of a quorum that finds them under another text of their path. -/
def annElsewhere : Quorum :=
  { Quorum.annQuorum with
    settings := { Quorum.annQuorum.settings with
      rosterPath := "./r", journalPath := "./j", envelopeDirectory := "./e" }
    journal := ⟨"./j", []⟩ }

theorem exists_written_settingsText : ∃ w,
    Settings.Written.ofJson (Text.utf8 settingsText) = .ok w ∧
      Settings.ofWritten "" w = .ok Quorum.annQuorum.settings ∧
      Settings.ofWritten "." w = .ok annElsewhere.settings := by
  have h : ((Settings.Written.ofJson (Text.utf8 settingsText)).toOption.map fun w =>
      ((Settings.ofWritten "" w).toOption, (Settings.ofWritten "." w).toOption)) =
        some (some Quorum.annQuorum.settings, some annElsewhere.settings) := by
    decide +kernel
  obtain ⟨w, hw, hs⟩ := Option.map_eq_some_iff.mp h
  obtain ⟨hhere, helsewhere⟩ := Prod.mk.inj hs
  exact ⟨w, toOption_eq_some_iff.mp hw, toOption_eq_some_iff.mp hhere,
    toOption_eq_some_iff.mp helsewhere⟩

/-- One intent, to send nothing to nobody. -/
def emptyRequest : Request :=
  { target := some "0x0000000000000000000000000000000000000000", value := some (.number 0) }

def emptyIntent : Intent := ⟨⟨List.replicate 20 0, rfl⟩, 0, []⟩

theorem ofRequest_emptyRequest : Intent.ofRequest emptyRequest = .ok emptyIntent := rfl

def emptyDigest : Digest := emptyIntent.digest (some Quorum.annQuorum.domain)

/-- The files of a quorum of one guardian, with an envelope for the intent. -/
def annDisk : Disk :=
  smallFiles settingsText (annFile.pretty 0) (Quorum.annForged emptyDigest).encodeTextual

def annStart : Sessions where
  site := ⟨annDisk, fun _ => Moment.epoch, 0, [], []⟩

theorem isStart_annStart : IsStart "j" {} annStart where
  houses := (smallFiles.houses _ _ _).1
  reads := Journal.readFile_of_empty (smallFiles.houses _ _ _).2
  clock _ := Moment.isValid_epoch
  session _ := rfl
  issued := rfl

theorem load_annStart : Quorum.load annStart.site "c" = (annStart.site, .ok Quorum.annQuorum) ∧
    Quorum.load annStart.site "./c" = (annStart.site, .ok annElsewhere) := by
  obtain ⟨w, hw, hhere, helsewhere⟩ := exists_written_settingsText
  obtain ⟨hc, hr, hj, _⟩ := smallFiles.leadAlike_dot
  have hroster : Roster.load annStart.site.disk "r" = .ok annRoster :=
    smallFiles.load_annFile settingsText _
  obtain ⟨_, hload⟩ := smallFiles.load settingsText _ _ annStart.site rfl (.refl "c")
    (by decide +kernel) hw hhere (.refl "r") (.refl "j") rfl hroster
  obtain ⟨_, hload'⟩ := smallFiles.load settingsText _ _ annStart.site rfl hc
    (by decide +kernel) hw helsewhere hr hj rfl hroster
  exact ⟨hload, hload'⟩

/-- Two sessions, each of which has been told that the intent may be executed. -/
theorem exists_annPair : ∃ (s : Sessions) (site : Site) (a b : Authorization),
    Run "j" annStart [.authorized 0 emptyRequest annStart.site a,
      .authorized 1 emptyRequest site b] s ∧
    s.site.disk = annDisk ∧ s.session 0 = some Quorum.annQuorum ∧
    s.session 1 = some annElsewhere ∧ s.issued = [(0, a), (1, b)] ∧ a.trail = {} ∧
    a.isAuthorized = true ∧ b.isAuthorized = true ∧
    a.tally.digest = emptyDigest ∧ b.tally.digest = emptyDigest := by
  obtain ⟨hload, hload'⟩ := load_annStart
  obtain ⟨_, _, hj, he⟩ := smallFiles.leadAlike_dot
  have hleft : annDisk.LeavesAlone annDisk "j" := .refl isStart_annStart.houses
  obtain ⟨site, a, ha, hdisk, htrail, _, hd, _, hmet⟩ :=
    Quorum.exists_ann_authorize annStart.site (q := Quorum.annQuorum) ofRequest_emptyRequest rfl
      (fun _ _ _ => rfl) rfl rfl (.refl "e") rfl (.refl "j")
  obtain ⟨site', b, hb, hdisk', _, _, hd', _, hmet'⟩ :=
    Quorum.exists_ann_authorize site (q := annElsewhere) ofRequest_emptyRequest hdisk
      (fun _ _ _ => rfl) rfl rfl he rfl hj
  have hfirst : Run "j" annStart [] (annStart.setSession 0 Quorum.annQuorum annStart.site) :=
    .step (.start _) (.loaded 0 rfl hload (.refl "j") hleft (by simp [Trail.IsClear, Sink.IsClear,
      Quorum.annQuorum]))
  have hboth := hfirst.step (.loaded 1 rfl hload' hj hleft (by simp [Trail.IsClear, Sink.IsClear,
    annElsewhere, Quorum.annQuorum]))
  have hasked := (hboth.step (.authorized 0 rfl ha)).step (.authorized 1 rfl hb)
  exact ⟨_, site, a, b, hasked, hdisk'.trans hdisk, rfl, rfl, rfl, htrail, hmet, hmet', hd, hd'⟩

/-- One of the two sessions has come back with its authorization. -/
theorem exists_annRecorded : ∃ (s : Sessions) (site : Site) (a b : Authorization)
    (r : ExecutionRecord),
    Run "j" annStart [.authorized 0 emptyRequest annStart.site a,
      .authorized 1 emptyRequest site b, .recorded 0 0 a r] s ∧
    annDisk.SameWays s.site.disk ∧ s.session 1 = some annElsewhere ∧
    s.issued = [(0, a), (1, b)] ∧ a.isAuthorized = true ∧ b.isAuthorized = true ∧
    a.tally.digest = emptyDigest ∧ b.tally.digest = emptyDigest := by
  obtain ⟨s, site, a, b, hrun, hdisk, hfirst, hsecond, hissued, htrail, hmet, hmet', hd, hd'⟩ :=
    exists_annPair
  obtain ⟨other, journal, hrecord, hsame⟩ := smallFiles.exists_record settingsText (annFile.pretty 0)
    (Quorum.annForged emptyDigest).encodeTextual a.tally.digest.text (a.details "0x1" none)
    s.site.now.1
  have hr := Quorum.recordExecution_of_record s.site (q := Quorum.annQuorum) hmet
    (by rw [hdisk]; exact hrecord)
  have hrecorded := hrun.step (.recorded 0 0 hfirst (by simp [hissued]) hr)
  refine ⟨_, site, a, b, _, hrecorded, ?_, hsecond, hissued, hmet, hmet', hd, hd'⟩
  rw [Authorization.note, htrail]
  exact hsame

/-- Two sessions that find one journal under different texts of its path have both been told that an
intent may be executed. Once the first has recorded it, nothing comes of either authorization any
more, and who asks again learns that it was executed. -/
theorem executed_intent_refused : ∃ (s : Sessions) (site : Site) (a b : Authorization)
    (r : ExecutionRecord),
    IsStart "j" {} annStart ∧
    Run "j" annStart [.authorized 0 emptyRequest annStart.site a,
      .authorized 1 emptyRequest site b, .recorded 0 0 a r] s ∧
    s.session 1 = some annElsewhere ∧ s.issued = [(0, a), (1, b)] ∧
    a.isAuthorized = true ∧ b.isAuthorized = true ∧ b.tally.digest = a.tally.digest ∧
    (∀ i q k c txHash note, s.session i = some q → (k, c) ∈ s.issued →
      ∃ site after fault, q.recordExecution s.site c txHash note = (site, after, .error fault)) ∧
    ∃ c next, Step "j" s (some (.authorized 1 emptyRequest s.site c)) next ∧
      c.isAuthorized = false ∧ ∀ (q : Quorum) txHash note, ∃ site fault,
        q.recordExecution next.site c txHash note = (site, q, .error fault) := by
  obtain ⟨s, site, a, b, r, hrun, hsame, hsession, hissued, hmet, hmet', hd, hd'⟩ :=
    exists_annRecorded
  have hstands := (isStart_annStart.consistent.1.run hrun).stands
  refine ⟨s, site, a, b, r, isStart_annStart, hrun, hsession, hissued, hmet, hmet',
    hd'.trans hd.symm, fun i q k c txHash note hi hc => ?_, ?_⟩
  · have hdigest : c.tally.digest = a.tally.digest := by
      rw [hissued] at hc
      simp only [List.mem_cons, Prod.mk.injEq, List.not_mem_nil, or_false] at hc
      rcases hc with ⟨_, rfl⟩ | ⟨_, rfl⟩
      · rfl
      · exact hd'.trans hd.symm
    exact isStart_annStart.exists_fault hrun hi hc (by simp [Call.executed?, hdigest]) txHash note
  · obtain ⟨_, _, hj, he⟩ := smallFiles.leadAlike_dot
    have hdirectory : s.site.disk.at? true annElsewhere.settings.envelopeDirectory =
        some .directory := hsame.at?_directory_iff.mpr (smallFiles.at?_directory _ _ _ he)
    obtain ⟨inbox, hinbox⟩ := Envelope.Inbox.exists_load? hdirectory
    have hlisted : r ∈ ({} : Loaded).records ++ List.filterMap Call.record?
        [.authorized 0 emptyRequest annStart.site a, .authorized 1 emptyRequest site b,
          .recorded 0 0 a r] := by simp [Call.record?]
    obtain ⟨loaded, hread, _⟩ := hstands.exists_readFile_of_mem hlisted
    have hreload : annElsewhere.journal.reload s.site.disk =
        .ok (⟨"./j", loaded.records⟩, loaded.warnings) :=
      Journal.open_eq_ok_iff.mpr ⟨rfl, Journal.readFile_of_leadAlike hj.symm hread⟩
    obtain ⟨_, c, hc, _⟩ :=
      Quorum.exists_authorize s.site (q := annElsewhere) rfl ofRequest_emptyRequest hinbox hreload
    have hstep : Step "j" s (some (.authorized 1 emptyRequest s.site c)) _ :=
      .authorized 1 hsession hc
    obtain ⟨_, _, hsafe⟩ := run_is_safe isStart_annStart hrun
    obtain ⟨_, hnot, hrefused⟩ := hsafe emptyDigest (.inr (by simp [Call.executed?, hd])) 1
      annElsewhere emptyRequest emptyIntent hsession ofRequest_emptyRequest rfl _ _ _ hstep
    refine ⟨c, _, hstep, hnot, fun q txHash note => ?_⟩
    obtain ⟨site', hrecord, _⟩ := hrefused [] _ (.start _) q txHash note
    exact ⟨site', _, hrecord⟩

end Sessions
end Countersign
