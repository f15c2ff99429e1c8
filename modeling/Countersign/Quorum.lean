import Countersign.Envelope.Inbox
import Countersign.Intent.Checksum
import Countersign.Journal.Handle
import Countersign.Setup.Settings
import Countersign.Tally
import Countersign.Trail.Sink

/-! Rounds of authorization. An intent is asked for, the envelopes for it are collected and counted,
and if enough guardians have approved, its execution is recorded. Every step leaves a trail. -/

namespace Countersign

inductive RoundFault where
  | setup (fault : SetupFault)
  | intent (fault : IntentFault)
  | inbox (directory : String)
  | journal (fault : JournalFault)
  | trail (path : String)
  | thresholdNotMet (digest : String) (approvals threshold : Nat)
  | replayed (digest : String)
  deriving DecidableEq, Repr

def RoundFault.message : RoundFault → String
  | setup fault => fault.message
  | intent fault => fault.message
  | inbox directory => Envelope.unlistable directory
  | journal fault => fault.message
  | trail path => s!"failed opening audit log {path}"
  | thresholdNotMet digest approvals threshold =>
    s!"intent {digest} has {approvals} of {threshold} required approvals"
  | replayed digest => s!"intent {digest} was already executed"

/-- The result of a round: the intent, how the envelopes were counted, and what was found. What
happens to the intent later goes to the trail of the round. -/
structure Authorization where
  intent : Intent
  tally : Tally
  reports : List Envelope.Report
  context : Context
  trail : Trail

namespace Authorization

def isAuthorized (a : Authorization) : Bool := a.tally.isMet

def calldata (a : Authorization) : Bytes := a.intent.calldata

def note (a : Authorization) (site : Site) (event : Event) : Site := a.trail.emit site a.context event

def noteBroadcast (a : Authorization) (site : Site) (txHash : String) : Site :=
  a.note site (.broadcast txHash)

def noteFailure (a : Authorization) (site : Site) (reason : String) : Site :=
  a.note site (.failure reason)

/-- What is recorded with the execution of the intent. -/
def details (a : Authorization) (txHash : String) (note : Option String) : ExecutionDetails where
  txHash := some txHash
  approvals := some a.tally.approvingIds
  note
  onChainDigest := some a.intent.onChainDigest.text

end Authorization

/-- A process's view of a quorum. -/
structure Quorum where
  settings : Settings
  roster : Roster
  journal : Journal
  trail : Trail

namespace Quorum

def domain (q : Quorum) : Domain := q.settings.domain

/-- What settings point at, without a trail. -/
def parts (disk : Disk) (path : String) : Except RoundFault (Settings × Roster × Journal) := do
  let settings ← (Settings.load disk path).mapError .setup
  let roster ← (Roster.load disk settings.rosterPath).mapError .setup
  let (journal, _) ← (Journal.open disk settings.journalPath).mapError .journal
  return (settings, roster, journal)

/-- The trail of these settings: to those who watch, and to a file if one is named. -/
def openTrail (disk : Disk) (settings : Settings) : Disk × Except RoundFault Trail :=
  match settings.trailPath with
  | none => (disk, .ok {})
  | some path =>
    match Sink.openFile? disk path with
    | (disk, some sink) => (disk, .ok ⟨[.notices, sink]⟩)
    | (disk, none) => (disk, .error (.trail path))

/-- The quorum whose settings are at a path. -/
def load (site : Site) (path : String) : Site × Except RoundFault Quorum :=
  match parts site.disk path with
  | .error fault => (site, .error fault)
  | .ok (settings, roster, journal) =>
    let (disk, trail) := openTrail site.disk settings
    ({ site with disk }, trail.map fun trail => ⟨settings, roster, journal, trail⟩)

def context (q : Quorum) (d : Digest) : Context :=
  ({ digest := d.text : Context }.withField "chainId" (toString q.settings.chain.toNat)).withField
    "contract" q.settings.contract.checksummed

def noDigest : Context := { digest := "-" }

/-- Notes a fault and ends with it. -/
def fail {α : Type} (q : Quorum) (site : Site) (context : Context) (fault : RoundFault) :
    Site × Quorum × Except RoundFault α :=
  (q.trail.emit site context (.failure fault.message), q, .error fault)

def closing (t : Tally) : Event :=
  if t.replay.isExecuted then .failure s!"intent {t.digest.text} was already executed"
  else if t.isMet then .thresholdSatisfied t.threshold t.approvingIds
  else .thresholdShortfall t.threshold t.approvals.length t.pendingIds

/-- Counts the envelopes found for an intent, after the journal has been read again. -/
def count (q : Quorum) (site : Site) (context : Context) (intent : Intent) (inbox : Envelope.Inbox) :
    Site × Quorum × Except RoundFault Authorization :=
  match q.journal.reload site.disk with
  | .error fault => q.fail site context (.journal fault)
  | .ok (journal, _) =>
    let d := intent.digest (some q.domain)
    let tally := Tally.ofEnvelopes q.roster d q.settings.threshold
      (.ofRecord? (journal.find? d.text)) inbox.envelopes
    (q.trail.emit site context (closing tally), { q with journal },
      .ok ⟨intent, tally, inbox.reports, context, q.trail⟩)

/-- Collects and counts the envelopes for the intent that is asked for. -/
def authorize (q : Quorum) (site : Site) (request : Request) :
    Site × Quorum × Except RoundFault Authorization :=
  match Intent.ofRequest request with
  | .error fault => q.fail site noDigest (.intent fault)
  | .ok intent =>
    let context := q.context (intent.digest (some q.domain))
    let site := q.trail.emit site context .intentReceived
    match Envelope.Inbox.load? site.disk q.settings.envelopeDirectory with
    | none => q.fail site context (.inbox q.settings.envelopeDirectory)
    | some inbox =>
      let site := q.trail.emit site context (.signaturesLoaded inbox.envelopes.length)
      q.count site context intent inbox

/-- Records the execution of an intent, unless it was not authorized or has been recorded in the
meantime. -/
def recordExecution (q : Quorum) (site : Site) (a : Authorization) (txHash : String)
    (note : Option String) : Site × Quorum × Except RoundFault ExecutionRecord :=
  let digest := a.tally.digest.text
  if a.tally.replay.isExecuted then
    (a.noteFailure site "refusing to record a replayed intent", q, .error (.replayed digest))
  else if !a.tally.isMet then
    let fault := .thresholdNotMet digest a.tally.approvals.length a.tally.threshold
    (a.noteFailure site fault.message, q, .error fault)
  else
    let (now, site) := site.now
    let (disk, journal, _, result) := q.journal.record site.disk digest (a.details txHash note) now
    let site := { site with disk }
    let q := { q with journal }
    match result with
    | .ok r => (a.note site (.executed txHash), q, .ok r)
    | .error (.alreadyExecuted digest) =>
      (a.noteFailure site "intent was recorded by another process", q, .error (.replayed digest))
    | .error fault => (a.noteFailure site fault.message, q, .error (.journal fault))

end Quorum
end Countersign
