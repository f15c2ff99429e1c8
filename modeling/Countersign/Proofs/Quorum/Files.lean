import Countersign.Proofs.Journal.Leftover
import Countersign.Proofs.Quorum.Rounds
import Countersign.Proofs.Tally.Honest

/-! Rounds whose trail is not kept in a file. What they come to can be told from the files of the
site, as far as nobody else changes them; and files from which such a round can be held. -/

namespace Countersign

theorem Roster.load_of_no_entries {disk : Disk} {path : String}
    (h : disk.readText? path = some "[]") : Roster.load disk path = .ok {} := by
  have hlist : GuardianEntry.listOfJson? (Text.utf8 "[]") = some [] := by
    have hlength : (GuardianEntry.listOfJson? (Text.utf8 "[]")).map List.length = some 0 := by
      decide +kernel
    obtain ⟨entries, he, hzero⟩ := Option.map_eq_some_iff.mp hlength
    rw [he, List.length_eq_zero_iff.mp hzero]
  rw [Roster.load, h]
  simp only [hlist]
  rfl

theorem Roster.load_of_leadAlike {disk : Disk} {path path' : String} {roster : Roster}
    (hp : Disk.LeadAlike path path') (h : load disk path = .ok roster) :
    load disk path' = .ok roster := by
  unfold load at h ⊢
  rw [hp.readText?] at h
  cases ht : disk.readText? path' with
  | none => simp [ht] at h
  | some text =>
    cases hl : GuardianEntry.listOfJson? (Text.utf8 text) with
    | none => simp [ht, hl] at h
    | some entries => simpa [ht, hl] using h

namespace Quorum

variable (site : Site) {q : Quorum} {request : Request}

/-- Loading a quorum changes nothing. -/
theorem load_of_open {path : String} {settings : Settings} {roster : Roster} {journal : Journal}
    {warnings : List JournalWarning} (hs : Settings.load site.disk path = .ok settings)
    (hr : Roster.load site.disk settings.rosterPath = .ok roster)
    (hj : Journal.open site.disk settings.journalPath = .ok (journal, warnings))
    (ht : settings.trailPath = none) :
    load site path = (site, .ok ⟨settings, roster, journal, {}⟩) := by
  have hparts : parts site.disk path = .ok (settings, roster, journal) := by
    rw [parts, hs]
    simp only [Except.mapError, bind, Except.bind, hr, hj]
    rfl
  simp only [load, hparts, openTrail, ht]
  rfl

/-- Where the trail changes no files, the digest of the intent is counted with what they hold. -/
theorem exists_authorize_of_disk
    (hemit : ∀ site context event, (q.trail.emit site context event).disk = site.disk)
    {intent : Intent} (hi : Intent.ofRequest request = .ok intent) {inbox : Envelope.Inbox}
    (hinbox : Envelope.Inbox.load? site.disk q.settings.envelopeDirectory = some inbox)
    {journal : Journal} {warnings : List JournalWarning}
    (hread : q.journal.reload site.disk = .ok (journal, warnings)) :
    ∃ site' a, q.authorize site request = (site', { q with journal }, .ok a) ∧
      site'.disk = site.disk ∧ a.trail = q.trail ∧ a.intent = intent ∧
      a.tally = Tally.ofEnvelopes q.roster (intent.digest (some q.domain)) q.settings.threshold
        (.ofRecord? (journal.find? (intent.digest (some q.domain)).text)) inbox.envelopes := by
  simp only [authorize, hi, hemit, hinbox, count, hread]
  exact ⟨_, _, rfl, by simp only [hemit], rfl, rfl, rfl⟩

theorem exists_authorize (ht : q.trail = {}) {intent : Intent}
    (hi : Intent.ofRequest request = .ok intent) {inbox : Envelope.Inbox}
    (hinbox : Envelope.Inbox.load? site.disk q.settings.envelopeDirectory = some inbox)
    {journal : Journal} {warnings : List JournalWarning}
    (hread : q.journal.reload site.disk = .ok (journal, warnings)) :
    ∃ site' a, q.authorize site request = (site', { q with journal }, .ok a) ∧
      site'.disk = site.disk ∧ a.trail = {} ∧ a.intent = intent ∧
      a.tally = Tally.ofEnvelopes q.roster (intent.digest (some q.domain)) q.settings.threshold
        (.ofRecord? (journal.find? (intent.digest (some q.domain)).text)) inbox.envelopes := by
  have hemit : ∀ (site : Site) context event,
      (q.trail.emit site context event).disk = site.disk := by
    intro site context event
    rw [ht]
    rfl
  rw [← ht]
  exact exists_authorize_of_disk site hemit hi hinbox hread

theorem recordExecution_of_record {a : Authorization} (hmet : a.tally.isMet = true)
    {txHash : String} {note : Option String} {disk : Disk} {journal : Journal}
    {warnings : List JournalWarning} {r : ExecutionRecord}
    (h : q.journal.record site.disk a.tally.digest.text (a.details txHash note) site.now.1 =
      (disk, journal, warnings, .ok r)) :
    q.recordExecution site a txHash note =
      (a.note { site with disk, ticks := site.ticks + 1 } (.executed txHash), { q with journal },
        .ok r) := by
  have hfresh : a.tally.replay.isExecuted = false := by
    simp only [Tally.isMet, Bool.and_eq_true, Bool.not_eq_true'] at hmet
    exact hmet.2
  simp only [Site.now] at h
  simp only [recordExecution, hfresh, hmet, Bool.not_true, Bool.false_eq_true, if_false, Site.now,
    h]

end Quorum

/-! ### Files of a small quorum -/

/-- Settings, a roster, a journal without records and a directory of envelopes with one file in
it. -/
def smallFiles (settings : String) (roster envelope : Bytes) : Disk where
  nodes := [(["c"], .file 0 (Text.utf8 settings)), (["r"], .file 1 roster), (["j"], .file 2 []),
    (["e"], .directory), (["e", "a"], .file 3 envelope)]
  made := 4

namespace smallFiles

variable (settings : String) (roster envelope : Bytes)

theorem houses : (smallFiles settings roster envelope).Houses "j" ∧
    (smallFiles settings roster envelope).at? true "j" = some (.file 2 []) := by
  have hmade : 2 < (smallFiles settings roster envelope).made := by
    show 2 < 4
    decide
  exact Disk.IsSingle.houses (by decide +kernel) (by decide +kernel) (Disk.isRooted_nil _) rfl
    hmade rfl

/-- A dot in front of the names says nothing. -/
theorem leadAlike_dot : Disk.LeadAlike "./c" "c" ∧ Disk.LeadAlike "./r" "r" ∧
    Disk.LeadAlike "./j" "j" ∧ Disk.LeadAlike "./e" "e" := by
  have hall : ∀ name ∈ ["c", "r", "j", "e"], Disk.LeadAlike ("./" ++ name) name := by
    intro name hname
    simp only [List.mem_cons, List.not_mem_nil, or_false] at hname
    rcases hname with rfl | rfl | rfl | rfl <;>
      exact Disk.leadAlike_of_areSpellings (by decide +kernel) (by decide) (by decide)
        (by decide +kernel) (by decide +kernel)
  exact ⟨hall "c" (by simp), hall "r" (by simp), hall "j" (by simp), hall "e" (by simp)⟩

theorem resolve {directory : String} (h : Disk.LeadAlike directory "e") :
    (smallFiles settings roster envelope).resolve true directory = .ok (["e"], some .directory) := by
  have hresolve : (smallFiles settings roster envelope).resolve true "e" =
      .ok (["e"], some .directory) := Disk.IsSingle.resolve (by decide +kernel) rfl (by simp)
  obtain ⟨hl, hn⟩ := Disk.resolve_eq_ok_iff.mp hresolve
  exact Disk.resolve_eq_ok_iff.mpr ⟨h.leadsTo_iff.mpr hl, hn⟩

theorem at?_directory {directory : String} (h : Disk.LeadAlike directory "e") :
    (smallFiles settings roster envelope).at? true directory = some .directory := by
  rw [Disk.at?, resolve settings roster envelope h]

theorem reload {path : String} (h : Disk.LeadAlike path "j") :
    (⟨path, []⟩ : Journal).reload (smallFiles settings roster envelope) = .ok (⟨path, []⟩, []) :=
  Journal.open_eq_ok_iff.mpr ⟨rfl, Journal.readFile_of_leadAlike h.symm
    (Journal.readFile_of_empty (houses settings roster envelope).2)⟩

/-- The settings may be called for under any text of their path, and may have any text for the
paths of the other files. -/
theorem load (site : Site) (hsite : site.disk = smallFiles settings roster envelope)
    {path base : String} (hpath : Disk.LeadAlike path "c")
    (hparent : (Path.parent? path).getD "" = base) {w : Settings.Written}
    (hw : Settings.Written.ofJson (Text.utf8 settings) = .ok w) {s : Settings}
    (hs : Settings.ofWritten base w = .ok s) (hroster : Disk.LeadAlike s.rosterPath "r")
    (hjournal : Disk.LeadAlike s.journalPath "j") (htrail : s.trailPath = none) {guardians : Roster}
    (hguardians : Roster.load site.disk "r" = .ok guardians) :
    Settings.load site.disk path = .ok s ∧
      Quorum.load site path = (site, .ok ⟨s, guardians, ⟨s.journalPath, []⟩, {}⟩) := by
  have htext : site.disk.readText? "c" = some settings := by
    rw [hsite]
    exact Disk.IsSingle.readText? (by decide +kernel) rfl
  have hload : Settings.load site.disk path = .ok s := by
    rw [Settings.load, hpath.readText?, htext]
    simp only [hw, hparent, hs]
  have hopen : Journal.open site.disk s.journalPath = .ok (⟨s.journalPath, []⟩, []) := by
    rw [hsite]
    exact reload settings roster envelope hjournal
  exact ⟨hload, Quorum.load_of_open site hload (Roster.load_of_leadAlike hroster.symm hguardians)
    hopen htrail⟩

/-- The first record can be made, and every path leads on to where it did. -/
theorem exists_record (digest : String) (details : ExecutionDetails) (now : Moment) :
    ∃ other after, (⟨"j", []⟩ : Journal).record (smallFiles settings roster envelope) digest details
      now = (other, after, [], .ok (Journal.newRecord digest details now)) ∧
      (smallFiles settings roster envelope).SameWays other := by
  obtain ⟨hh, ha⟩ := houses settings roster envelope
  have hlock : ((smallFiles settings roster envelope).openFile? true "j.lock").isSome = true :=
    Disk.IsSingle.openFile?_isSome (by decide +kernel) true rfl
  have hbeside : ((smallFiles settings roster envelope).openFile? false "j.tmp").isSome = true :=
    Disk.IsSingle.openFile?_isSome (by decide +kernel) false rfl
  have hown : (smallFiles settings roster envelope).at? false "j" = some (.file 2 []) := by
    have hsingle : Disk.IsSingle "j" := by decide +kernel
    exact (hsingle.leadsTo _).at?
  obtain ⟨other, after, hrecord⟩ := Journal.exists_record hh hlock ⟨hbeside, by decide, by simp [ha]⟩
    (reload settings roster envelope (.refl "j")) rfl details now
  exact ⟨other, after, hrecord, Journal.sameWays_of_record hh (Disk.hasDirectory_of_at? ha)
    (fun target => by simp [hown]) hrecord⟩

variable {settings roster envelope}

theorem exists_load?_mem {directory : String} (hd : Disk.LeadAlike directory "e") {e : Envelope}
    {format : Envelope.Format} (h : format.decode envelope = .ok e) : ∃ inbox,
    Envelope.Inbox.load? (smallFiles settings roster envelope) directory = some inbox ∧
      e ∈ inbox.envelopes := by
  have hnode : (smallFiles settings roster envelope).node? (["e"] ++ ["a"]) =
      some (.file 3 envelope) := rfl
  exact Envelope.Inbox.exists_load?_mem (resolve settings roster envelope hd) hnode h

end smallFiles

/-! ### A roster of one guardian -/

def annFields : List (String × Json) :=
  [("id", Json.string " ann\n"), ("publicKey", Json.string (Hex.prefixed ann.publicKey)),
    ("parameterSet", .natural 0)]

/-- The file with the entry of the guardian. -/
def annFile : Json := .array [.object (annFields.map fun e => (Text.utf8 e.1, e.2))]

theorem ofJson?_annFields : GuardianEntry.ofJson?
    (.object (annFields.map fun e => (Text.utf8 e.1, e.2))) = some annEntry := by
  have hdistinct : (annFields.map Prod.fst).Nodup := by
    show ["id", "publicKey", "parameterSet"].Nodup
    decide
  obtain ⟨hwhole, hfield⟩ :=
    Json.Form.given_distinct (show GuardianEntry.form.closed = false from rfl) hdistinct
  have hid := hfield "id" 0 rfl
  have hkey := hfield "publicKey" 1 rfl
  have hset := hfield "parameterSet" 2 rfl
  have hweight := hfield "weight" 3 rfl
  have hrevoked := hfield "revoked" 4 rfl
  have hkey' : annFields.lookup "publicKey" = some (Json.string (Hex.prefixed ann.publicKey)) := rfl
  simp only [GuardianEntry.ofJson?, Json.document, hwhole, Json.optional?, hid, hkey, hset, hweight,
    hrevoked, hkey', Json.nullable?_string]
  rfl

theorem smallFiles.load_annFile (settings : String) (envelope : Bytes) :
    Roster.load (smallFiles settings (annFile.pretty 0) envelope) "r" = .ok annRoster := by
  have hplain : annFile.isPlain = true := by
    simp [annFile, Json.isPlain, Json.isPlainItems, Json.isPlainEntries, annFields, Json.string]
  have hlegible : annFile.legible = true := by
    have hfields : ∀ e ∈ annFields, e.2.legible = true := by
      simp [annFields, Json.legible_string, Json.legible]
    rw [annFile, Json.legible, Json.legibleItems, Json.legible_object hfields]
    rfl
  obtain ⟨text, _, hutf, hread⟩ := Json.exists_text_pretty 0 hplain hlegible
  have htext : (smallFiles settings (annFile.pretty 0) envelope).readText? "r" = some text := by
    rw [← hutf]
    exact Disk.IsSingle.readText? (by decide +kernel) rfl
  have hlist : GuardianEntry.listOfJson? (Text.utf8 text) = some [annEntry] := by
    rw [GuardianEntry.listOfJson?, hread]
    simp [annFile, ofJson?_annFields]
  rw [Roster.load, htext]
  simp only [hlist]
  exact ofEntries_annEntry

namespace Quorum

/-- An envelope that seems to be the guardian's, and is made without his keys. -/
def annForged (d : Digest) : Envelope where
  parameterSet := 0
  digest := d.text
  publicKey := ann.publicKey
  signature := Lattice.forged .mlDsa44 (zeros 32) d.bytes
  metadata := none

theorem verify_annForged (d : Digest) :
    Scheme.verify 0 ann.publicKey d.bytes (annForged d).signature = true :=
  Scheme.verify_forged rfl (length_zeros 32) d.bytes

theorem ann_approves (d : Digest) : ann.Approves d (annForged d) where
  publicKey := rfl
  name := .inl rfl
  parameterSet := rfl
  signature := Scheme.ne_nil_of_verify (verify_annForged d)
  digest := Digest.normalForm_text d
  verified := verify_annForged d

theorem isMet_of_annForged {d : Digest} {envelopes : List Envelope}
    (h : annForged d ∈ envelopes) :
    (Tally.ofEnvelopes annRoster d 1 .fresh envelopes).approvals ≠ [] ∧
      (Tally.ofEnvelopes annRoster d 1 .fresh envelopes).isMet = true := by
  obtain ⟨husable, _⟩ := Roster.isTrimmed_of_ofEntries ofEntries_annEntry
  obtain ⟨approval, hm, _⟩ := husable.exists_approval (List.mem_singleton_self ann)
    List.not_mem_nil h (ann_approves d)
  have hone : 1 ≤ (Tally.ofEnvelopes annRoster d 1 .fresh envelopes).approvals.length :=
    List.length_pos_iff.mpr (List.ne_nil_of_mem hm)
  exact ⟨List.ne_nil_of_mem hm, Bool.and_eq_true_iff.mpr ⟨decide_eq_true hone, rfl⟩⟩

def annQuorum : Quorum where
  settings := {
    chain := 1, contract := ⟨zeros 20, rfl⟩, domainVersion := 1
    functionSignature := Selector.executeSignature, bindsSelector := true, threshold := 1
    rosterPath := "r", journalPath := "j", envelopeDirectory := "e", trailPath := none }
  roster := annRoster
  journal := ⟨"j", []⟩
  trail := {}

/-- A round for an intent that the guardian seems to approve. -/
theorem exists_ann_authorize (site : Site) {q : Quorum} {request : Request} {intent : Intent}
    {settings path : String} {roster : Bytes} (hi : Intent.ofRequest request = .ok intent)
    (hsite : site.disk = smallFiles settings roster
      (annForged (intent.digest (some q.domain))).encodeTextual)
    (hemit : ∀ site context event, (q.trail.emit site context event).disk = site.disk)
    (hroster : q.roster = annRoster) (hthreshold : q.settings.threshold = 1)
    (hdirectory : Disk.LeadAlike q.settings.envelopeDirectory "e")
    (hjournal : q.journal = ⟨path, []⟩) (hpath : Disk.LeadAlike path "j") :
    ∃ site' a, q.authorize site request = (site', q, .ok a) ∧ site'.disk = site.disk ∧
      a.trail = q.trail ∧ a.intent = intent ∧ a.tally.digest = intent.digest (some q.domain) ∧
      a.tally.approvals ≠ [] ∧ a.isAuthorized = true := by
  have hdecode : Envelope.Format.json.decode
      (annForged (intent.digest (some q.domain))).encodeTextual = .ok (annForged _) :=
    Envelope.decodeTextual_encodeTextual _
  obtain ⟨inbox, hinbox, hmem⟩ :=
    smallFiles.exists_load?_mem hdirectory hdecode
  have hreload : q.journal.reload site.disk = .ok (q.journal, []) := by
    rw [hjournal, hsite]
    exact smallFiles.reload _ _ _ hpath
  rw [← hsite] at hinbox
  obtain ⟨site', a, ha, hdisk, htrail, hintent, htally⟩ :=
    exists_authorize_of_disk site hemit hi hinbox hreload
  have hfresh : Replay.ofRecord? (q.journal.find? (intent.digest (some q.domain)).text) = .fresh := by
    rw [hjournal]
    rfl
  rw [hroster, hthreshold, hfresh] at htally
  obtain ⟨hsome, hmet⟩ := isMet_of_annForged hmem
  exact ⟨site', a, ha, hdisk, htrail, hintent, by rw [htally]; rfl, by rwa [htally],
    by rwa [Authorization.isAuthorized, htally]⟩

end Quorum
end Countersign
