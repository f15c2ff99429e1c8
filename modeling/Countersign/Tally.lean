import Countersign.Envelope.Verdict
import Countersign.Journal.Record
import Countersign.Setup.Roster

/-! Counting the envelopes for one digest against a roster. Envelopes are taken in their order: the
first valid one of each guardian is an approval, and every other one is kept with the reason why it
does not count. -/

namespace Countersign

inductive Replay where
  | fresh
  | executed
  | recorded (r : ExecutionRecord)
  deriving DecidableEq

namespace Replay

def isExecuted : Replay → Bool
  | fresh => false
  | _ => true

def record? : Replay → Option ExecutionRecord
  | recorded r => some r
  | _ => none

def ofBool (executed : Bool) : Replay := if executed then .executed else fresh

def ofRecord? : Option ExecutionRecord → Replay
  | some r => recorded r
  | none => fresh

end Replay

structure Approval where
  guardian : Guardian
  envelope : Envelope
  deriving DecidableEq

structure Refusal where
  envelope : Envelope
  reason : Rejection
  deriving DecidableEq

structure Sifted where
  approvals : List Approval := []
  refusals : List Refusal := []
  deriving DecidableEq

structure Tally where
  digest : Digest
  threshold : Nat
  approvals : List Approval
  refusals : List Refusal
  /-- The guardians who have not approved, in the order of the roster. -/
  pending : List Guardian
  replay : Replay
  deriving DecidableEq

namespace Tally

/-- The guardian whose approval an envelope is, where those in `claimed` have approved. -/
def approver (roster : Roster) (d : Digest) (claimed : List String) (e : Envelope) :
    Except Rejection Guardian :=
  match roster.behind? e with
  | none => .error .unknownGuardian
  | some g =>
    if g.parameterSet ≠ e.parameterSet then .error .parameterSetMismatch
    else if g.id ∈ claimed then .error .duplicateGuardian
    else
      match e.verdict (some d) with
      | .valid => .ok g
      | .invalid reason => .error reason

/-- Sifts envelopes, where the guardians in `claimed` have approved before them. -/
def sift (roster : Roster) (d : Digest) (claimed : List String) : List Envelope → Sifted
  | [] => {}
  | e :: rest =>
    match approver roster d claimed e with
    | .ok g =>
      let later := sift roster d (g.id :: claimed) rest
      { later with approvals := ⟨g, e⟩ :: later.approvals }
    | .error reason =>
      let later := sift roster d claimed rest
      { later with refusals := ⟨e, reason⟩ :: later.refusals }

/-- Counts envelopes for a digest that needs `threshold` approvals. -/
def ofEnvelopes (roster : Roster) (d : Digest) (threshold : Nat) (replay : Replay)
    (envelopes : List Envelope) : Tally :=
  let sifted := sift roster d [] envelopes
  let claimed := sifted.approvals.map (·.guardian.id)
  { digest := d
    threshold, replay
    approvals := sifted.approvals
    refusals := sifted.refusals
    pending := roster.guardians.filter (·.id ∉ claimed) }

def approvingIds (t : Tally) : List String := t.approvals.map (·.guardian.id)

def pendingIds (t : Tally) : List String := t.pending.map (·.id)

def shortfall (t : Tally) : Nat := t.threshold - t.approvals.length

/-- Whether the intent may be executed: there are enough approvals and it has not been before. -/
def isMet (t : Tally) : Bool :=
  decide (t.threshold ≤ t.approvals.length) && !t.replay.isExecuted

end Tally

namespace Envelope

/-- Whether an envelope may stand in front of another: names in their order, envelopes without a
name last, and keys in their order where that does not decide. -/
def precedes (a b : Envelope) : Bool :=
  match a.guardianId, b.guardianId with
  | some x, some y => decide (x < y) || (x == y && decide (a.publicKey ≤ b.publicKey))
  | some _, none => true
  | none, some _ => false
  | none, none => decide (a.publicKey ≤ b.publicKey)

/-- The envelopes in an order that does not depend on where they were found. Those of one name and
key stay as they are. -/
def inOrder (envelopes : List Envelope) : List Envelope := envelopes.mergeSort precedes

end Envelope
end Countersign
