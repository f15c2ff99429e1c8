import Countersign.Proofs.Quorum.Rounds
import Countersign.Proofs.Tally.Sifting
import Countersign.Proofs.Trail.Telling

/-! What is told of single calls. A call that is authorized or declined tells how far it came and
why it ended there; one that is to record an execution tells that it has, or that it has not. -/

namespace Countersign

/-- The event says whether the intent was found to be executed, to be approved, or neither. -/
structure Tally.IsClosedBy (t : Tally) (event : Event) : Prop where
  failure : (∃ reason, event = .failure reason) ↔ t.replay.isExecuted = true
  satisfied : ∀ threshold ids, event = .thresholdSatisfied threshold ids ↔
    t.isMet = true ∧ threshold = t.threshold ∧ ids = t.approvingIds
  shortfall : ∀ threshold approvals ids, event = .thresholdShortfall threshold approvals ids ↔
    (t.replay.isExecuted = false ∧ t.isMet = false) ∧ threshold = t.threshold ∧
      approvals = t.approvals.length ∧ ids = t.pendingIds

theorem Tally.isClosedBy_closing (t : Tally) : t.IsClosedBy (Quorum.closing t) := by
  unfold Quorum.closing
  split
  · rename_i hexecuted
    have hmet : t.isMet = false := by simp [isMet, hexecuted]
    exact ⟨by simp [hexecuted], by simp [hmet], by simp [hexecuted]⟩
  · rename_i hexecuted
    split
    · rename_i hmet
      exact ⟨by simp [hexecuted], by simp [hmet, eq_comm], by simp [hmet]⟩
    · rename_i hmet
      exact ⟨by simp [hexecuted], by simp [hmet], by simp [hexecuted, hmet, eq_comm]⟩

theorem Tally.IsClosedBy.not_executed {t : Tally} {event : Event} (h : t.IsClosedBy event)
    (txHash : String) : event ≠ .executed txHash := by
  rintro rfl
  have hexecuted : ¬ t.replay.isExecuted = true := fun he => nomatch h.failure.mpr he
  have hmet : ¬ t.isMet = true := fun hm => nomatch (h.satisfied _ _).mpr ⟨hm, rfl, rfl⟩
  exact nomatch (h.shortfall _ _ _).mpr
    ⟨⟨by simpa using hexecuted, by simpa using hmet⟩, rfl, rfl, rfl⟩

theorem Tally.length_ofEnvelopes (roster : Roster) (d : Digest) (threshold : Nat) (replay : Replay)
    (envelopes : List Envelope) :
    (ofEnvelopes roster d threshold replay envelopes).approvals.length +
      (ofEnvelopes roster d threshold replay envelopes).refusals.length = envelopes.length := by
  have h := (perm_sift roster d [] envelopes).length_eq
  rwa [List.length_append, List.length_map, List.length_map] at h

namespace Quorum

/-- What is told of a request, by what comes of it. Whatever is told once there is an intent is told
under its digest. -/
inductive Tells (q : Quorum) (site : Site) (request : Request) :
    Except RoundFault Authorization → List Note → Prop where
  | invalid {fault : IntentFault} (h : Intent.ofRequest request = .error fault) :
      Tells q site request (.error (.intent fault))
        [({ digest := "-" }, .failure fault.message)]
  | uncollected {intent : Intent} {c : Context} (h : Intent.ofRequest request = .ok intent)
      (hc : c.digest = (intent.digest (some q.domain)).text)
      (hinbox : Envelope.Inbox.load? (q.trail.tell site [(c, .intentReceived)]).disk
        q.settings.envelopeDirectory = none) :
      Tells q site request (.error (.inbox q.settings.envelopeDirectory))
        [(c, .intentReceived),
          (c, .failure (Envelope.unlistable q.settings.envelopeDirectory))]
  | unread {intent : Intent} {c : Context} {inbox : Envelope.Inbox} {fault : JournalFault}
      (h : Intent.ofRequest request = .ok intent)
      (hc : c.digest = (intent.digest (some q.domain)).text)
      (hinbox : Envelope.Inbox.load? (q.trail.tell site [(c, .intentReceived)]).disk
        q.settings.envelopeDirectory = some inbox)
      (hj : q.journal.reload (q.trail.tell site
        [(c, .intentReceived), (c, .signaturesLoaded inbox.envelopes.length)]).disk =
          .error fault) :
      Tells q site request (.error (.journal fault))
        [(c, .intentReceived), (c, .signaturesLoaded inbox.envelopes.length),
          (c, .failure fault.message)]
  | counted {a : Authorization} {event : Event} (h : Intent.ofRequest request = .ok a.intent)
      (hd : a.tally.digest = a.intent.digest (some q.domain))
      (hc : a.context.digest = a.tally.digest.text) (hclosed : a.tally.IsClosedBy event) :
      Tells q site request (.ok a)
        [(a.context, .intentReceived),
          (a.context, .signaturesLoaded (a.tally.approvals.length + a.tally.refusals.length)),
          (a.context, event)]

variable {q after : Quorum} {site site' : Site}

/-- An authorization has no effect but what it tells. -/
theorem authorize_tells {request : Request} {result : Except RoundFault Authorization}
    (h : q.authorize site request = (site', after, result)) :
    ∃ told, q.Tells site request result told ∧ site' = q.trail.tell site told := by
  unfold authorize at h
  split at h
  · rename_i fault hfault
    simp only [fail, Prod.mk.injEq] at h
    obtain ⟨rfl, -, rfl⟩ := h
    exact ⟨_, .invalid hfault, rfl⟩
  · rename_i intent hintent
    simp only at h
    split at h
    · rename_i hinbox
      simp only [fail, Prod.mk.injEq] at h
      obtain ⟨rfl, -, rfl⟩ := h
      exact ⟨_, .uncollected hintent rfl hinbox, rfl⟩
    · rename_i inbox hinbox
      unfold count at h
      split at h
      · rename_i fault hfault
        simp only [fail, Prod.mk.injEq] at h
        obtain ⟨rfl, -, rfl⟩ := h
        exact ⟨_, .unread hintent rfl hinbox hfault, rfl⟩
      · rename_i journal warnings hjournal
        simp only [Prod.mk.injEq] at h
        obtain ⟨rfl, -, rfl⟩ := h
        refine ⟨_, .counted hintent rfl rfl (Tally.isClosedBy_closing _), ?_⟩
        rw [Tally.length_ofEnvelopes]
        rfl

/-- The event that tells what comes of recording an execution. A fault is told by its message,
unless it is that the intent has been executed. -/
inductive Concludes (txHash : String) : Except RoundFault ExecutionRecord → Event → Prop where
  | recorded (r : ExecutionRecord) : Concludes txHash (.ok r) (.executed txHash)
  | refused {fault : RoundFault} {reason : String}
      (h : reason = fault.message ∨ ∃ digest, fault = .replayed digest) :
      Concludes txHash (.error fault) (.failure reason)

/-- What comes of recording an execution is told once, and the rest happens to the files alone. -/
theorem recordExecution_tells {a : Authorization} {txHash : String} {note : Option String}
    {result : Except RoundFault ExecutionRecord}
    (h : q.recordExecution site a txHash note = (site', after, result)) :
    ∃ event disk ticks, Concludes txHash result event ∧
      site' = a.trail.tell { site with disk, ticks } [(a.context, event)] := by
  unfold recordExecution at h
  simp only at h
  split at h
  · simp only [Prod.mk.injEq] at h
    obtain ⟨rfl, -, rfl⟩ := h
    exact ⟨_, site.disk, site.ticks, .refused (.inr ⟨_, rfl⟩), rfl⟩
  · split at h
    · simp only [Prod.mk.injEq] at h
      obtain ⟨rfl, -, rfl⟩ := h
      exact ⟨_, site.disk, site.ticks, .refused (.inl rfl), rfl⟩
    · simp only [Site.now] at h
      split at h
      · rename_i r _
        simp only [Prod.mk.injEq] at h
        obtain ⟨rfl, -, rfl⟩ := h
        exact ⟨_, _, _, .recorded r, rfl⟩
      · simp only [Prod.mk.injEq] at h
        obtain ⟨rfl, -, rfl⟩ := h
        exact ⟨_, _, _, .refused (.inr ⟨_, rfl⟩), rfl⟩
      · simp only [Prod.mk.injEq] at h
        obtain ⟨rfl, -, rfl⟩ := h
        exact ⟨_, _, _, .refused (.inl rfl), rfl⟩

end Quorum
end Countersign
