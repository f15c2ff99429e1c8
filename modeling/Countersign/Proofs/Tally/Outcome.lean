import Countersign.Proofs.Tally.Honest

/-! What becomes of each envelope of a batch. It depends on the envelope and on those in front of
it: the first valid one of a guardian is the approval, and whatever follows is a repetition. -/

namespace Countersign.Tally

/-- What becomes of an envelope behind the `earlier` ones. A repetition is told as such whatever its
own signature. -/
def outcome (roster : Roster) (d : Digest) (earlier : List Envelope) (e : Envelope) :
    Except Rejection Guardian :=
  match roster.behind? e with
  | none => .error .unknownGuardian
  | some g =>
    if g.parameterSet ≠ e.parameterSet then .error .parameterSetMismatch
    else if ∃ f ∈ earlier, CountsFor roster d f g then .error .duplicateGuardian
    else
      match e.verdict (some d) with
      | .valid => .ok g
      | .invalid reason => .error reason

/-- The envelopes of a batch with what becomes of them. -/
def outcomes (roster : Roster) (d : Digest) (batch : List Envelope) :
    List (Envelope × Except Rejection Guardian) :=
  batch.mapIdx fun i e => (e, outcome roster d (batch.take i) e)

def approval? : Envelope × Except Rejection Guardian → Option Approval
  | (e, .ok g) => some ⟨g, e⟩
  | (_, .error _) => none

def refusal? : Envelope × Except Rejection Guardian → Option Refusal
  | (_, .ok _) => none
  | (e, .error reason) => some ⟨e, reason⟩

variable {roster : Roster} {d : Digest} {claimed : List String} {earlier : List Envelope}

/-- The names are those of the guardians for whom one of the envelopes counts. -/
def AreNamesOf (roster : Roster) (d : Digest) (claimed : List String)
    (earlier : List Envelope) : Prop :=
  ∀ g ∈ roster.guardians, g.id ∈ claimed ↔ ∃ f ∈ earlier, CountsFor roster d f g

theorem areNamesOf_nil : AreNamesOf roster d [] [] := by
  intro g _
  simp

theorem AreNamesOf.approver_eq (h : AreNamesOf roster d claimed earlier) (hr : IsUsable roster)
    (e : Envelope) : approver roster d claimed e = outcome roster d earlier e := by
  unfold approver outcome
  cases hb : roster.behind? e with
  | none => rfl
  | some g =>
    obtain ⟨hm, _⟩ := hr.behind?_eq_some_iff.mp hb
    exact if_congr Iff.rfl rfl (if_congr (h g hm) rfl rfl)

theorem AreNamesOf.of_ok (h : AreNamesOf roster d claimed earlier) (hr : IsUsable roster)
    {e : Envelope} {g : Guardian} (ha : approver roster d claimed e = .ok g) :
    AreNamesOf roster d (g.id :: claimed) (earlier ++ [e]) := by
  obtain ⟨_, hcounts⟩ := approver_eq_ok_iff.mp ha
  obtain ⟨hg, _⟩ := hr.behind?_eq_some_iff.mp hcounts.behind
  intro other hm
  have hsame : other.id = g.id ↔ CountsFor roster d e other := by
    constructor
    · intro hid
      rwa [hr.eq_of_id hm hg hid]
    · intro hother
      exact congrArg Guardian.id (Option.some.inj (hother.behind.symm.trans hcounts.behind))
  simp only [List.mem_cons, hsame, h other hm, List.mem_append, List.not_mem_nil, or_false,
    or_and_right, exists_or, exists_eq_left]
  exact or_comm

theorem AreNamesOf.of_error (h : AreNamesOf roster d claimed earlier) {e : Envelope}
    {reason : Rejection} (ha : approver roster d claimed e = .error reason) :
    AreNamesOf roster d claimed (earlier ++ [e]) := by
  intro other hm
  -- it is refused for a guardian it counts for only where his name is claimed before
  have hclaimed : CountsFor roster d e other → other.id ∈ claimed := by
    intro hcounts
    by_contra hc
    rw [approver_eq_ok_iff.mpr ⟨hc, hcounts⟩] at ha
    exact nomatch ha
  rw [h other hm] at hclaimed ⊢
  constructor
  · rintro ⟨f, hf, hcounts⟩
    exact ⟨f, List.mem_append_left _ hf, hcounts⟩
  · rintro ⟨f, hf, hcounts⟩
    rcases List.mem_append.mp hf with hf | hf
    · exact ⟨f, hf, hcounts⟩
    · obtain rfl := List.mem_singleton.mp hf
      exact hclaimed hcounts

/-! ### The whole batch -/

theorem outcomes_cons (roster : Roster) (d : Digest) (earlier : List Envelope) (e : Envelope)
    (rest : List Envelope) :
    (e :: rest).mapIdx (fun i f => (f, outcome roster d (earlier ++ (e :: rest).take i) f)) =
      (e, outcome roster d earlier e) ::
        rest.mapIdx fun i f => (f, outcome roster d (earlier ++ [e] ++ rest.take i) f) := by
  simp [List.mapIdx_cons]

theorem AreNamesOf.sift_eq (h : AreNamesOf roster d claimed earlier) (hr : IsUsable roster)
    (batch : List Envelope) :
    let told := batch.mapIdx fun i e => (e, outcome roster d (earlier ++ batch.take i) e)
    sift roster d claimed batch = ⟨told.filterMap approval?, told.filterMap refusal?⟩ := by
  -- the names that are claimed stay those of the envelopes in front
  induction batch generalizing claimed earlier with
  | nil => rfl
  | cons e rest ih =>
    have he := h.approver_eq hr e
    simp only [outcomes_cons]
    cases ho : outcome roster d earlier e with
    | ok g =>
      have ha := he.trans ho
      rw [sift_of_ok ha, ih (h.of_ok hr ha)]
      rfl
    | error reason =>
      have ha := he.trans ho
      rw [sift_of_error ha, ih (h.of_error ha)]
      rfl

/-- Every envelope of a batch has its outcome by the rule, whatever the others are. The approvals
are the envelopes that are accepted and the refusals those that are not, both in the order of the
batch and as they were given, and each envelope is in one of the two. -/
theorem first_valid_envelope_counts {guardians : List Guardian}
    (h : Roster.ofGuardians guardians = .ok roster) (d : Digest) (threshold : Nat)
    (replay : Replay) (batch : List Envelope) :
    let t := ofEnvelopes roster d threshold replay batch
    t.approvals = (outcomes roster d batch).filterMap approval? ∧
    t.refusals = (outcomes roster d batch).filterMap refusal? ∧
    (t.approvals.map (·.envelope)).Sublist batch ∧ (t.refusals.map (·.envelope)).Sublist batch ∧
    (t.approvals.map (·.envelope) ++ t.refusals.map (·.envelope)).Perm batch := by
  intro t
  have hsift : sift roster d [] batch = ⟨(outcomes roster d batch).filterMap approval?,
      (outcomes roster d batch).filterMap refusal?⟩ :=
    areNamesOf_nil.sift_eq (isUsable_of_ofGuardians h) batch
  obtain ⟨happrovals, hrefusals⟩ := sublist_sift roster d [] batch
  exact ⟨congrArg Sifted.approvals hsift, congrArg Sifted.refusals hsift, happrovals, hrefusals,
    perm_sift roster d [] batch⟩

/-! ### One guardian, five envelopes -/

def ben : Guardian where
  id := "ben"
  publicKey := [2]
  parameterSet := 3

def annAndBen : Roster :=
  ⟨[ann, ben], [("ben", 1), ("ann", 0)], [([2], 1), (ann.publicKey, 0)]⟩

theorem ofGuardians_annAndBen : Roster.ofGuardians
    [ann, { ben with id := "eve", publicKey := [3], revoked := true }, ben] = .ok annAndBen :=
  rfl

theorem publicKey_ann_ne_nil : ann.publicKey ≠ [] :=
  ((isUsable_of_ofGuardians ofGuardians_annAndBen).complete ann List.mem_cons_self).publicKey

/-- An envelope that counts for ann, with a note on it. -/
def annNoted (d : Digest) (note : String) : Envelope where
  parameterSet := 0
  digest := d.text
  publicKey := ann.publicKey
  signature := Lattice.forged .mlDsa44 (zeros 32) d.bytes
  metadata := some { guardianId := some "ann", note := some note }

theorem behind?_annAndBen {e : Envelope} (hid : e.guardianId = some "ann") :
    annAndBen.behind? e = if ann.publicKey = e.publicKey then some ann else none := by
  have hstated : Text.stated? "ann" = some "ann" := by decide +kernel
  have hget : annAndBen.get? "ann" = some ann := rfl
  rw [Roster.behind?, hid, Option.bind_some, hstated]
  simp [hget, Option.filter]

theorem countsFor_annNoted (d : Digest) (note : String) :
    CountsFor annAndBen d (annNoted d note) ann where
  behind := by
    rw [behind?_annAndBen rfl]
    exact if_pos rfl
  parameterSet := rfl
  valid := by
    have hverified : Scheme.verify 0 ann.publicKey d.bytes (annNoted d note).signature = true :=
      Scheme.verify_forged rfl (length_zeros 32) d.bytes
    exact Envelope.verdict_eq_valid_iff.mpr ⟨Digest.normalForm_text d,
      Scheme.ne_nil_of_verify hverified, publicKey_ann_ne_nil, rfl, hverified⟩

theorem sift_pair {e f : Envelope} {g : Guardian} (he : CountsFor roster d e g)
    (hf : CountsFor roster d f g) :
    sift roster d [] [e, f] = ⟨[⟨g, e⟩], [⟨f, .duplicateGuardian⟩]⟩ := by
  rw [sift_of_ok (approver_eq_ok_iff.mpr ⟨List.not_mem_nil, he⟩),
    sift_of_error (approver_of_claimed hf List.mem_cons_self)]
  rfl

theorem approvals_pair {e f : Envelope} {g : Guardian} (he : CountsFor roster d e g)
    (hf : CountsFor roster d f g) (threshold : Nat) (replay : Replay) :
    (ofEnvelopes roster d threshold replay [e, f]).approvals = [⟨g, e⟩] :=
  congrArg Sifted.approvals (sift_pair he hf)

theorem outcome_of_countsFor {e : Envelope} {g : Guardian} (h : CountsFor roster d e g) :
    outcome roster d earlier e =
      if ∃ f ∈ earlier, CountsFor roster d f g then .error .duplicateGuardian else .ok g := by
  simp [outcome, h.behind, h.parameterSet, h.valid]

theorem verdict_of_no_signature {e : Envelope} (hd : d.IsNamed e.digest) (hs : e.signature = []) :
    e.verdict (some d) = .invalid .missingSignature := by
  have hblank : (Text.trim e.digest.toList).isEmpty = false := by
    simpa using Digest.not_blank_of_isNamed hd
  simp [Envelope.verdict, hblank, hd, Envelope.verdictAlone, hs]

/-- Neither a stranger under the guardian's name nor an envelope without signature or of another set
stands in the way of the guardian's first valid envelope, and the next one is a repetition. -/
theorem next_envelope_is_a_repetition :
    let d : Digest := ⟨List.replicate 32 0, by decide⟩
    let first := annNoted d "first"
    let next := annNoted d "next"
    let stranger : Envelope := { first with publicKey := [] }
    let unsigned : Envelope := { first with signature := [] }
    let otherSet : Envelope := { first with parameterSet := 1 }
    let t := ofEnvelopes annAndBen d 1 .fresh [stranger, unsigned, otherSet, first, next]
    Roster.ofGuardians
        [ann, { ben with id := "eve", publicKey := [3], revoked := true }, ben] = .ok annAndBen ∧
      t.approvals = [⟨ann, first⟩] ∧
      t.refusals = [⟨stranger, .unknownGuardian⟩, ⟨unsigned, .missingSignature⟩,
        ⟨otherSet, .parameterSetMismatch⟩, ⟨next, .duplicateGuardian⟩] := by
  intro d first next stranger unsigned otherSet t
  have hfirst : CountsFor annAndBen d first ann := countsFor_annNoted d "first"
  have hnext : CountsFor annAndBen d next ann := countsFor_annNoted d "next"
  have hstranger : annAndBen.behind? stranger = none := by
    rw [behind?_annAndBen rfl]
    exact if_neg publicKey_ann_ne_nil
  have hunsigned : annAndBen.behind? unsigned = some ann := hfirst.behind
  have hotherSet : annAndBen.behind? otherSet = some ann := hfirst.behind
  have hdiffer : ann.parameterSet ≠ otherSet.parameterSet := by decide
  have hverdict : unsigned.verdict (some d) = .invalid .missingSignature :=
    verdict_of_no_signature (Digest.normalForm_text d) rfl
  have hstrange : ¬ CountsFor annAndBen d stranger ann :=
    fun h => nomatch hstranger.symm.trans h.behind
  have hbare : ¬ CountsFor annAndBen d unsigned ann := fun h => nomatch hverdict.symm.trans h.valid
  have hother : ¬ CountsFor annAndBen d otherSet ann := fun h => hdiffer h.parameterSet
  have hout : outcomes annAndBen d [stranger, unsigned, otherSet, first, next] =
      [(stranger, .error .unknownGuardian), (unsigned, .error .missingSignature),
        (otherSet, .error .parameterSetMismatch), (first, .ok ann),
        (next, .error .duplicateGuardian)] := by
    show [(stranger, outcome annAndBen d [] stranger),
        (unsigned, outcome annAndBen d [stranger] unsigned),
        (otherSet, outcome annAndBen d [stranger, unsigned] otherSet),
        (first, outcome annAndBen d [stranger, unsigned, otherSet] first),
        (next, outcome annAndBen d [stranger, unsigned, otherSet, first] next)] = _
    rw [outcome_of_countsFor hfirst, outcome_of_countsFor hnext]
    simp [outcome, hstranger, hunsigned, hotherSet, hverdict, hstrange, hbare, hother, hfirst,
      hdiffer]
    rfl
  obtain ⟨happrovals, hrefusals, _⟩ :=
    first_valid_envelope_counts ofGuardians_annAndBen d 1 .fresh
      [stranger, unsigned, otherSet, first, next]
  rw [hout] at happrovals hrefusals
  exact ⟨ofGuardians_annAndBen, happrovals, hrefusals⟩

/-! ### Reasons that are never given -/

theorem IsUsable.of_behind (hr : IsUsable roster) {e : Envelope} {g : Guardian}
    (hb : roster.behind? e = some g) (hset : g.parameterSet = e.parameterSet) :
    e.publicKey ≠ [] ∧ Scheme.isSupported e.parameterSet = true := by
  obtain ⟨hm, hkey, _⟩ := hr.behind?_eq_some_iff.mp hb
  have hg := hr.complete g hm
  exact ⟨hkey ▸ hg.publicKey, hset ▸ hg.parameterSet⟩

theorem verdict_cases {e : Envelope} (hkey : e.publicKey ≠ [])
    (hset : Scheme.isSupported e.parameterSet = true) :
    e.verdict (some d) = .valid ∨ e.verdict (some d) = .invalid .missingDigest ∨
      e.verdict (some d) = .invalid .digestMismatch ∨
      e.verdict (some d) = .invalid .missingSignature ∨
      e.verdict (some d) = .invalid .signatureInvalid := by
  unfold Envelope.verdict
  by_cases hblank : (Text.trim e.digest.toList).isEmpty = true
  · simp [hblank]
  · by_cases hd : d.IsNamed e.digest
    · by_cases hs : e.signature = []
      · simp [hblank, hd, Envelope.verdictAlone, hs]
      · by_cases hv : Scheme.verify e.parameterSet e.publicKey d.bytes e.signature = true
        · simp [hblank, hd, Envelope.verdictAlone, hs, hkey, hset, Digest.parse_of_isNamed hd, hv]
        · simp [hblank, hd, Envelope.verdictAlone, hs, hkey, hset, Digest.parse_of_isNamed hd, hv]
    · simp [hblank, hd]

theorem IsUsable.reason_of_approver (hr : IsUsable roster) {e : Envelope} {reason : Rejection}
    (h : approver roster d claimed e = .error reason) :
    reason ≠ .missingPublicKey ∧ reason ≠ .unsupportedParameterSet ∧ reason ≠ .malformedDigest := by
  unfold approver at h
  split at h
  · obtain rfl := Except.error.inj h
    decide
  · rename_i g hb
    split at h
    · obtain rfl := Except.error.inj h
      decide
    · rename_i hset
      obtain ⟨hkey, hsupported⟩ := hr.of_behind hb (not_not.mp hset)
      split at h
      · obtain rfl := Except.error.inj h
        decide
      · rcases verdict_cases (d := d) hkey hsupported with hv | hv | hv | hv | hv <;> rw [hv] at h
        · exact nomatch h
        all_goals
          obtain rfl := Except.error.inj h
          decide

/-- An envelope that is found to be a guardian's, of his strength and for the digest, has a key, a
known strength and a digest that can be read. So no refusal says that one of these is missing. -/
theorem no_refusal_for_what_was_compared {guardians : List Guardian}
    (h : Roster.ofGuardians guardians = .ok roster) (d : Digest) :
    (∀ e g, roster.behind? e = some g → g.parameterSet = e.parameterSet → d.IsNamed e.digest →
      e.publicKey ≠ [] ∧ Scheme.isSupported e.parameterSet = true ∧
        Digest.parse e.digest = .ok d) ∧
    ∀ threshold replay batch, ∀ r ∈ (ofEnvelopes roster d threshold replay batch).refusals,
      r.reason ≠ .missingPublicKey ∧ r.reason ≠ .unsupportedParameterSet ∧
        r.reason ≠ .malformedDigest := by
  have hr := isUsable_of_ofGuardians h
  refine ⟨fun e g hb hset hd => ?_, fun threshold replay batch r hm => ?_⟩
  · obtain ⟨hkey, hsupported⟩ := hr.of_behind hb hset
    exact ⟨hkey, hsupported, Digest.parse_of_isNamed hd⟩
  · obtain ⟨claimed, ha⟩ := exists_of_mem_refusals hm
    exact hr.reason_of_approver ha

/-- A key that is left out, a strength that there is none of and a digest that is no text of one are
all refused, for other reasons. -/
theorem incomplete_envelopes_are_refused_otherwise :
    let roster : Roster := ⟨[⟨"ben", [2], 3, none, false⟩], [("ben", 0)], [([2], 0)]⟩
    let d : Digest := ⟨List.replicate 32 0, by decide⟩
    let t := ofEnvelopes roster d 1 .fresh
      [⟨3, d.text, [], [7], none⟩, ⟨9, d.text, [2], [7], none⟩, ⟨3, "0xzz", [2], [7], none⟩]
    Roster.ofGuardians [⟨"ben", [2], 3, none, false⟩] = .ok roster ∧
      t.refusals.map (·.reason) = [.unknownGuardian, .parameterSetMismatch, .digestMismatch] ∧
      ∀ r ∈ t.refusals, r.reason ≠ .missingPublicKey ∧ r.reason ≠ .unsupportedParameterSet ∧
        r.reason ≠ .malformedDigest := by
  intro roster d t
  have h : Roster.ofGuardians [⟨"ben", [2], 3, none, false⟩] = .ok roster := rfl
  obtain ⟨_, hnever⟩ := no_refusal_for_what_was_compared h d
  exact ⟨h, by decide +kernel, hnever 1 .fresh _⟩

end Countersign.Tally
