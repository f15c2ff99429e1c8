import Countersign.Proofs.Envelope.Order
import Countersign.Proofs.Tally.Outcome

/-! Tallies of the same envelopes, found in different orders. Once the envelopes are ordered, the
tallies differ among ties alone: they agree on the guardians, and not on which of two tied envelopes
is the approval. -/

namespace Countersign.Tally

open Envelope (place inOrder SameTies Shuffled)

variable {roster : Roster} {d : Digest} {claimed : List String}

/-- What of an envelope's fate does not tell it from those it is tied with. -/
def outline (s : Sifted) :
    List (Guardian × Option String × Bytes) × List (Option String × Bytes) :=
  (s.approvals.map fun a => (a.guardian, a.envelope.place), s.refusals.map (·.envelope.place))

theorem behind?_eq_of_place {a b : Envelope} (h : a.place = b.place) :
    roster.behind? a = roster.behind? b := by
  obtain ⟨hname, hkey⟩ := Prod.mk.inj h
  rw [Roster.behind?, Roster.behind?, hname, hkey]

theorem eq_of_approver {a b : Envelope} (h : a.place = b.place) {g g' : Guardian}
    (ha : approver roster d claimed a = .ok g) (hb : approver roster d claimed b = .ok g') :
    g = g' := by
  have hga := (approver_eq_ok_iff.mp ha).2.behind
  have hgb := (approver_eq_ok_iff.mp hb).2.behind
  rw [behind?_eq_of_place h] at hga
  exact Option.some.inj (hga.symm.trans hgb)

/-- Where more guardians have approved, no envelope counts that did not count before. -/
theorem exists_error_cons {e : Envelope} {reason : Rejection}
    (h : approver roster d claimed e = .error reason) (id : String) :
    ∃ reason', approver roster d (id :: claimed) e = .error reason' := by
  cases hcons : approver roster d (id :: claimed) e with
  | error reason' => exact ⟨reason', rfl⟩
  | ok g =>
    obtain ⟨hc, hcounts⟩ := approver_eq_ok_iff.mp hcons
    have hc' : g.id ∉ claimed := fun hm => hc (List.mem_cons_of_mem _ hm)
    rw [approver_eq_ok_iff.mpr ⟨hc', hcounts⟩] at h
    exact nomatch h

theorem outline_sift_swap {a b : Envelope} (h : a.place = b.place) (rest : List Envelope) :
    outline (sift roster d claimed (a :: b :: rest)) =
      outline (sift roster d claimed (b :: a :: rest)) := by
  cases ha : approver roster d claimed a with
  | error _ =>
    cases hb : approver roster d claimed b with
    | error _ =>
      rw [sift_of_error ha, sift_of_error hb, sift_of_error hb, sift_of_error ha]
      simp [outline, h]
    | ok g =>
      obtain ⟨_, ha'⟩ := exists_error_cons ha g.id
      rw [sift_of_error ha, sift_of_ok hb, sift_of_ok hb, sift_of_error ha']
      simp [outline]
  | ok g =>
    cases hb : approver roster d claimed b with
    | error _ =>
      obtain ⟨_, hb'⟩ := exists_error_cons hb g.id
      rw [sift_of_ok ha, sift_of_error hb', sift_of_error hb, sift_of_ok ha]
      simp [outline]
    | ok g' =>
      obtain rfl := eq_of_approver h ha hb
      have hclaimed : g.id ∈ g.id :: claimed := List.mem_cons_self
      have ha' := approver_of_claimed (approver_eq_ok_iff.mp ha).2 hclaimed
      have hb' := approver_of_claimed (approver_eq_ok_iff.mp hb).2 hclaimed
      rw [sift_of_ok ha, sift_of_error hb', sift_of_ok hb, sift_of_error ha']
      simp [outline, h]

/-- The outline is kept when tied neighbours change places, and so by any shuffling. -/
theorem outline_sift_of_shuffled {batch other : List Envelope} (h : Shuffled batch other)
    (claimed : List String) :
    outline (sift roster d claimed batch) = outline (sift roster d claimed other) := by
  induction h generalizing claimed with
  | nil => rfl
  | cons e _ ih =>
    cases ha : approver roster d claimed e with
    | error _ =>
      rw [sift_of_error ha, sift_of_error ha]
      have hrest := Prod.mk.inj (ih claimed)
      simp [outline, hrest]
    | ok g =>
      rw [sift_of_ok ha, sift_of_ok ha]
      have hrest := Prod.mk.inj (ih (g.id :: claimed))
      simp [outline, hrest]
  | swap h rest => exact outline_sift_swap h rest
  | trans _ _ ih ih' => exact (ih claimed).trans (ih' claimed)

/-- A roster of nobody refuses every envelope, in the order of the batch. -/
theorem envelopes_sift_of_nobody (d : Digest) (claimed : List String) (batch : List Envelope) :
    (sift {} d claimed batch).refusals.map (·.envelope) = batch := by
  induction batch with
  | nil => rfl
  | cons e rest ih =>
    have hnone : approver {} d claimed e = .error .unknownGuardian := by
      have hbehind : ({} : Roster).behind? e = none := by
        cases hb : ({} : Roster).behind? e with
        | none => rfl
        | some g =>
          obtain ⟨hg, _⟩ := Roster.isIndexed_empty.behind?_eq_some_iff.mp hb
          exact absurd hg List.not_mem_nil
      simp [approver, hbehind]
    rw [sift_of_error hnone]
    exact congrArg (e :: ·) ih

/-- Of the same envelopes in two orders, ordering makes one tally for every roster, digest and
threshold exactly if tied envelopes stand in one order in both, as they do when no two different
ones are tied. Otherwise the tallies still have the same guardians approve in the same order, in
envelopes of the same names and keys, and come to the same decision; which of the tied envelopes
are the approvals is left to the order in which they were found. -/
theorem tallies_agree_but_for_ties {batch other : List Envelope} (h : batch.Perm other) :
    ((∀ guardians roster, Roster.ofGuardians guardians = .ok roster →
        ∀ d threshold replay, ofEnvelopes roster d threshold replay (inOrder batch) =
          ofEnvelopes roster d threshold replay (inOrder other)) ↔ SameTies batch other) ∧
    ((∀ a ∈ batch, ∀ b ∈ batch, a.place = b.place → a = b) → SameTies batch other) ∧
    ∀ roster d threshold replay,
      let t := ofEnvelopes roster d threshold replay (inOrder batch)
      let u := ofEnvelopes roster d threshold replay (inOrder other)
      t.approvals.map (fun a => (a.guardian, a.envelope.place)) =
          u.approvals.map (fun a => (a.guardian, a.envelope.place)) ∧
        t.refusals.map (·.envelope.place) = u.refusals.map (·.envelope.place) ∧
        t.approvingIds = u.approvingIds ∧ t.pending = u.pending ∧
        t.shortfall = u.shortfall ∧ t.isMet = u.isMet := by
  refine ⟨⟨fun hall => ?_, fun hties guardians roster _ d threshold replay => ?_⟩,
    Envelope.sameTies_of_perm h, fun roster d threshold replay => ?_⟩
  · -- a roster of nobody shows the order of all envelopes, tied or not
    let d : Digest := ⟨List.replicate 32 0, by decide⟩
    have hsame : (sift {} d [] (inOrder batch)).refusals = (sift {} d [] (inOrder other)).refusals :=
      congrArg Tally.refusals (hall [] {} rfl d 0 .fresh)
    have henvelopes := congrArg (List.map (·.envelope)) hsame
    rw [envelopes_sift_of_nobody, envelopes_sift_of_nobody] at henvelopes
    exact Envelope.inOrder_eq_iff.mp henvelopes
  · rw [Envelope.inOrder_eq_iff.mpr hties]
  · intro t u
    have houtline : outline (sift roster d [] (inOrder batch)) =
        outline (sift roster d [] (inOrder other)) :=
      outline_sift_of_shuffled (Envelope.shuffled_inOrder h) []
    obtain ⟨happrovals, hrefusals⟩ := Prod.mk.inj houtline
    have hids : t.approvingIds = u.approvingIds := by
      have hmapped := congrArg (List.map fun x => x.1.id) happrovals
      rw [List.map_map, List.map_map] at hmapped
      exact hmapped
    have hlength : t.approvals.length = u.approvals.length := by
      have hmapped := congrArg List.length hids
      rwa [approvingIds, approvingIds, List.length_map, List.length_map] at hmapped
    have hpending : t.pending = u.pending :=
      List.filter_congr fun g _ => by
        change decide (g.id ∉ t.approvingIds) = decide (g.id ∉ u.approvingIds)
        rw [hids]
    refine ⟨happrovals, hrefusals, hids, hpending, congrArg (threshold - ·) hlength, ?_⟩
    exact congrArg (fun n => decide (threshold ≤ n) && !replay.isExecuted) hlength

theorem approvals_of_tied {a b : Envelope} (h : a.place = b.place) {g : Guardian}
    (ha : CountsFor roster d a g) (hb : CountsFor roster d b g) (threshold : Nat)
    (replay : Replay) :
    (ofEnvelopes roster d threshold replay (inOrder [a, b])).approvals = [⟨g, a⟩] := by
  have hordered : Envelope.IsOrdered [a, b] :=
    List.pairwise_pair.mpr (Envelope.precedes_of_place_eq h)
  rw [inOrder, List.mergeSort_of_pairwise hordered]
  exact approvals_pair ha hb threshold replay

theorem ne_of_tied {a b : Envelope} (h : a.place = b.place) (hne : a ≠ b) {g : Guardian}
    (ha : CountsFor roster d a g) (hb : CountsFor roster d b g) (threshold : Nat)
    (replay : Replay) : ofEnvelopes roster d threshold replay (inOrder [a, b]) ≠
      ofEnvelopes roster d threshold replay (inOrder [b, a]) := by
  intro heq
  have hsame := congrArg approvals heq
  rw [approvals_of_tied h ha hb, approvals_of_tied h.symm hb ha] at hsame
  exact hne (Approval.mk.inj (List.singleton_inj.mp hsame)).2

theorem place_annNoted (d : Digest) (note note' : String) :
    (annNoted d note).place = (annNoted d note').place :=
  rfl

theorem annNoted_first_ne_next (d : Digest) : annNoted d "first" ≠ annNoted d "next" := by
  intro h
  have hnotes : some "first" = some "next" :=
    congrArg (fun e : Envelope => e.metadata.bind (·.note)) h
  exact absurd hnotes (by decide)

/-- Envelopes of one guardian with different notes are tied, and the report shows which of them was
found first. -/
theorem order_of_ties_is_seen : ¬ ∀ guardians roster, Roster.ofGuardians guardians = .ok roster →
    ∀ d threshold replay (batch other : List Envelope), batch.Perm other →
      ofEnvelopes roster d threshold replay (inOrder batch) =
        ofEnvelopes roster d threshold replay (inOrder other) := by
  intro hall
  let d : Digest := ⟨List.replicate 32 0, by decide⟩
  have hsame := hall _ annAndBen ofGuardians_annAndBen d 1 .fresh
    [annNoted d "first", annNoted d "next"] [annNoted d "next", annNoted d "first"] (.swap _ _ _)
  exact ne_of_tied (place_annNoted d "first" "next") (annNoted_first_ne_next d)
    (countsFor_annNoted d "first") (countsFor_annNoted d "next") 1 .fresh hsame

/-- Whichever of two envelopes of ann was found first is the approval, and the tallies are of one
mind about ann and ben. -/
theorem tied_envelopes_of_ann :
    let d : Digest := ⟨List.replicate 32 0, by decide⟩
    let first := annNoted d "first"
    let next := annNoted d "next"
    let t := ofEnvelopes annAndBen d 1 .fresh (inOrder [first, next])
    let u := ofEnvelopes annAndBen d 1 .fresh (inOrder [next, first])
    t.approvals = [⟨ann, first⟩] ∧ u.approvals = [⟨ann, next⟩] ∧
      ¬ SameTies [first, next] [next, first] ∧ t.approvingIds = u.approvingIds ∧
      t.pending = u.pending ∧ t.shortfall = u.shortfall ∧ t.isMet = u.isMet := by
  intro d first next t u
  have hplace : first.place = next.place := place_annNoted d "first" "next"
  have hfirst : CountsFor annAndBen d first ann := countsFor_annNoted d "first"
  have hnext : CountsFor annAndBen d next ann := countsFor_annNoted d "next"
  have hperm : [first, next].Perm [next, first] := .swap _ _ _
  obtain ⟨heq, _, hagree⟩ := tallies_agree_but_for_ties hperm
  obtain ⟨_, _, hids, hpending, hshortfall, hmet⟩ := hagree annAndBen d 1 .fresh
  refine ⟨approvals_of_tied hplace hfirst hnext 1 .fresh,
    approvals_of_tied hplace.symm hnext hfirst 1 .fresh, fun hties => ?_, hids, hpending,
    hshortfall, hmet⟩
  exact ne_of_tied hplace (annNoted_first_ne_next d) hfirst hnext 1 .fresh
    (heq.mpr hties _ annAndBen ofGuardians_annAndBen d 1 .fresh)

end Countersign.Tally
