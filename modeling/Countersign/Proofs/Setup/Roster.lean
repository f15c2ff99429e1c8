import Countersign.Setup.Roster

/-! What a roster's indexes say: each name and each key leads to the one guardian who has it. -/

namespace Countersign

/-- The requirements on a guardian that do not depend on the others. -/
structure Guardian.IsComplete (g : Guardian) : Prop where
  id : Text.trim g.id.toList ≠ []
  publicKey : g.publicKey ≠ []
  parameterSet : Scheme.isSupported g.parameterSet = true

theorem Guardian.check_eq_ok_iff {place : Nat} {g : Guardian} :
    g.check place = .ok () ↔ g.IsComplete := by
  unfold Guardian.check
  constructor
  · intro h
    by_cases hid : (Text.trim g.id.toList).isEmpty = true
    · simp [hid] at h
    · by_cases hkey : g.publicKey.isEmpty = true
      · simp [hid, hkey] at h
      · by_cases hset : Scheme.isSupported g.parameterSet = true
        · exact ⟨by simpa using hid, by simpa using hkey, hset⟩
        · simp [hid, hkey, hset] at h
  · rintro ⟨hid, hkey, hset⟩
    simp [hid, hkey, hset]

theorem Guardian.checkAll_eq_ok_iff {place : Nat} {guardians : List Guardian} :
    Guardian.checkAll place guardians = .ok () ↔ ∀ g ∈ guardians, g.IsComplete := by
  induction guardians generalizing place with
  | nil => simp [Guardian.checkAll]
  | cons g rest ih =>
    cases hc : g.check place with
    | error fault =>
      have hno : ¬ g.IsComplete := by
        intro hg
        have hok : g.check place = .ok () := Guardian.check_eq_ok_iff.mpr hg
        simp [hc] at hok
      simp [Guardian.checkAll, hc, hno, Except.bind]
    | ok _ =>
      have hyes : g.IsComplete := Guardian.check_eq_ok_iff.mp hc
      simp [Guardian.checkAll, hc, hyes, Except.bind, ih]

namespace Roster

/-- Each index holds the places of exactly the guardians that it should find. -/
structure IsIndexed (r : Roster) : Prop where
  id : ∀ id place, r.idIndex.lookup id = some place ↔ (r.guardians[place]?).map (·.id) = some id
  key : ∀ key place,
    r.keyIndex.lookup key = some place ↔ (r.guardians[place]?).map (·.publicKey) = some key

theorem isIndexed_empty : IsIndexed {} := ⟨by simp, by simp⟩

/-- An index stays right when a new entry is put in front and its owner behind the others. -/
theorem lookup_cons_iff {α : Type} [BEq α] [LawfulBEq α] {index : List (α × Nat)}
    {guardians : List Guardian} {f : Guardian → α} {g : Guardian}
    (h : ∀ a place, index.lookup a = some place ↔ (guardians[place]?).map f = some a)
    (hnew : index.lookup (f g) = none) (a : α) (place : Nat) :
    ((f g, guardians.length) :: index).lookup a = some place ↔
      ((guardians ++ [g])[place]?).map f = some a := by
  by_cases ha : a = f g
  · subst ha
    have hold : ∀ p : Nat, (guardians[p]?).map f ≠ some (f g) := by
      intro p hp
      rw [← h, hnew] at hp
      simp at hp
    simp only [List.lookup_cons, beq_self_eq_true, Option.some.injEq]
    constructor
    · rintro rfl
      simp
    · intro hp
      rcases Nat.lt_trichotomy place guardians.length with hlt | heq | hgt
      · rw [List.getElem?_append_left hlt] at hp
        exact absurd hp (hold place)
      · exact heq.symm
      · have hlen : (guardians ++ [g]).length ≤ place := by
          simp only [List.length_append, List.length_singleton]
          omega
        rw [List.getElem?_eq_none hlen] at hp
        simp at hp
  · have hb : (a == f g) = false := by simpa using ha
    simp only [List.lookup_cons, hb, h]
    by_cases hlt : place < guardians.length
    · rw [List.getElem?_append_left hlt]
    · have hge : guardians.length ≤ place := by omega
      rw [List.getElem?_append_right hge, List.getElem?_eq_none hge]
      cases hp : place - guardians.length with
      | zero => simp [Ne.symm ha]
      | succ n => simp

theorem lookup_eq_none_iff {α : Type} [BEq α] [LawfulBEq α] {index : List (α × Nat)}
    {guardians : List Guardian} {f : Guardian → α}
    (h : ∀ a place, index.lookup a = some place ↔ (guardians[place]?).map f = some a) (a : α) :
    index.lookup a = none ↔ ∀ g ∈ guardians, f g ≠ a := by
  rw [Option.eq_none_iff_forall_ne_some]
  constructor
  · intro hnone g hg hga
    obtain ⟨place, hp⟩ := List.mem_iff_getElem?.mp hg
    exact hnone place ((h a place).mpr (by rw [hp, Option.map_some, hga]))
  · intro hall place hl
    obtain ⟨g, hp, hga⟩ := Option.map_eq_some_iff.mp ((h a place).mp hl)
    exact hall g (List.mem_of_getElem? hp) hga

theorem add_eq_ok {r r' : Roster} {g : Guardian} (h : r.add g = .ok r') :
    r.idIndex.lookup g.id = none ∧ r.keyIndex.lookup g.publicKey = none ∧
      r' = ⟨r.guardians ++ [g], (g.id, r.guardians.length) :: r.idIndex,
        (g.publicKey, r.guardians.length) :: r.keyIndex⟩ := by
  unfold add at h
  by_cases hid : (r.idIndex.lookup g.id).isSome = true
  · simp [hid] at h
  · rw [if_neg hid] at h
    cases hkey : r.keyIndex.lookup g.publicKey with
    | some first => simp [hkey] at h
    | none =>
      simp only [hkey, Except.ok.injEq] at h
      exact ⟨Option.not_isSome_iff_eq_none.mp hid, rfl, h.symm⟩

theorem IsIndexed.add {r r' : Roster} {g : Guardian} (hr : r.IsIndexed) (h : r.add g = .ok r') :
    r'.IsIndexed ∧ r'.guardians = r.guardians ++ [g] := by
  obtain ⟨hid, hkey, rfl⟩ := add_eq_ok h
  exact ⟨⟨lookup_cons_iff hr.id hid, lookup_cons_iff hr.key hkey⟩, rfl⟩

theorem IsIndexed.addAll {guardians : List Guardian} {r r' : Roster} (hr : r.IsIndexed)
    (h : r.addAll guardians = .ok r') :
    r'.IsIndexed ∧ r'.guardians = r.guardians ++ guardians := by
  induction guardians generalizing r with
  | nil =>
    simp only [Roster.addAll, Except.ok.injEq] at h
    subst h
    exact ⟨hr, by simp⟩
  | cons g rest ih =>
    cases ha : r.add g with
    | error fault => simp [Roster.addAll, ha, Except.bind] at h
    | ok next =>
      obtain ⟨hnext, hg⟩ := hr.add ha
      have h' : next.addAll rest = .ok r' := by simpa [Roster.addAll, ha, Except.bind] using h
      obtain ⟨hr', hgs⟩ := ih hnext h'
      exact ⟨hr', by rw [hgs, hg, List.append_assoc]; rfl⟩

/-! ### What is taken -/

/-- The guardians can stand in one roster. -/
def Differ (a b : Guardian) : Prop := a.id ≠ b.id ∧ a.publicKey ≠ b.publicKey

theorem IsIndexed.exists_add_iff {r : Roster} (hr : r.IsIndexed) {g : Guardian} :
    (∃ r', r.add g = .ok r') ↔ ∀ a ∈ r.guardians, Differ a g := by
  have hid := lookup_eq_none_iff hr.id g.id
  have hkey := lookup_eq_none_iff hr.key g.publicKey
  constructor
  · rintro ⟨r', h⟩ a ha
    obtain ⟨hnoId, hnoKey, _⟩ := add_eq_ok h
    exact ⟨hid.mp hnoId a ha, hkey.mp hnoKey a ha⟩
  · intro h
    have hnoId := hid.mpr fun a ha => (h a ha).1
    have hnoKey := hkey.mpr fun a ha => (h a ha).2
    simp only [Roster.add, hnoId, hnoKey, Option.isSome_none, Bool.false_eq_true, if_false]
    exact ⟨_, rfl⟩

theorem IsIndexed.exists_addAll_iff {guardians : List Guardian} {r : Roster} (hr : r.IsIndexed) :
    (∃ r', r.addAll guardians = .ok r') ↔
      (∀ a ∈ r.guardians, ∀ g ∈ guardians, Differ a g) ∧ guardians.Pairwise Differ := by
  induction guardians generalizing r with
  | nil => simp [Roster.addAll]
  | cons g rest ih =>
    have hadd := hr.exists_add_iff (g := g)
    cases ha : r.add g with
    | error fault =>
      have hno : ¬ ∀ a ∈ r.guardians, Differ a g := fun hall => by
        obtain ⟨r', hr'⟩ := hadd.mpr hall
        rw [ha] at hr'
        exact nomatch hr'
      simp only [Roster.addAll, ha, Except.bind, reduceCtorEq, exists_false, false_iff]
      exact fun h => hno fun a hmem => h.1 a hmem g List.mem_cons_self
    | ok next =>
      obtain ⟨hnext, hg⟩ := hr.add ha
      have hnew : ∀ a ∈ r.guardians, Differ a g := hadd.mp ⟨next, ha⟩
      simp only [Roster.addAll, ha, Except.bind, ih hnext, hg, List.forall_mem_append,
        List.forall_mem_singleton, List.forall_mem_cons, List.pairwise_cons]
      constructor
      · rintro ⟨⟨hold, hrest⟩, hpair⟩
        exact ⟨fun a hmem => ⟨hnew a hmem, hold a hmem⟩, hrest, hpair⟩
      · rintro ⟨hold, hrest, hpair⟩
        exact ⟨⟨fun a hmem => (hold a hmem).2, hrest⟩, hpair⟩

theorem exists_ofGuardians_iff {guardians : List Guardian} :
    (∃ roster, ofGuardians guardians = .ok roster) ↔
      (∀ g ∈ guardians, g.IsComplete) ∧ (guardians.filter (!·.revoked)).Pairwise Differ := by
  have hall : (∃ r, ({} : Roster).addAll (guardians.filter (!·.revoked)) = .ok r) ↔
      (guardians.filter (!·.revoked)).Pairwise Differ := by
    rw [isIndexed_empty.exists_addAll_iff]
    exact and_iff_right fun a ha => absurd ha List.not_mem_nil
  have hcheck : Guardian.checkAll 0 guardians = .ok () ↔ ∀ g ∈ guardians, g.IsComplete :=
    Guardian.checkAll_eq_ok_iff
  rw [← hcheck]
  cases hc : Guardian.checkAll 0 guardians with
  | error fault => simp [ofGuardians, hc, Except.bind]
  | ok _ => simp only [ofGuardians, hc, Except.bind, hall, true_and]

/-- The indexes list the names and the keys with their places, the last guardian's in front. -/
structure IsListed (r : Roster) : Prop where
  id : r.idIndex = (r.guardians.map (·.id)).zipIdx.reverse
  key : r.keyIndex = (r.guardians.map (·.publicKey)).zipIdx.reverse

theorem IsListed.addAll {guardians : List Guardian} {r r' : Roster} (hr : r.IsListed)
    (h : r.addAll guardians = .ok r') : r'.IsListed := by
  induction guardians generalizing r with
  | nil =>
    obtain rfl := Except.ok.inj h
    exact hr
  | cons g rest ih =>
    cases ha : r.add g with
    | error fault => simp [Roster.addAll, ha, Except.bind] at h
    | ok next =>
      obtain ⟨_, _, rfl⟩ := add_eq_ok ha
      refine ih ⟨?_, ?_⟩ (by simpa [Roster.addAll, ha, Except.bind] using h)
      · simp [hr.id, List.zipIdx_append]
      · simp [hr.key, List.zipIdx_append]

/-- A roster holds the guardians that are not revoked, each complete, under right indexes. -/
theorem ofGuardians_eq_ok {guardians : List Guardian} {roster : Roster}
    (h : ofGuardians guardians = .ok roster) :
    roster.IsIndexed ∧ roster.guardians = guardians.filter (!·.revoked) ∧
      ∀ g ∈ roster.guardians, g.IsComplete := by
  cases hc : Guardian.checkAll 0 guardians with
  | error fault => simp [ofGuardians, hc, Except.bind] at h
  | ok _ =>
    have h' : ({} : Roster).addAll (guardians.filter (!·.revoked)) = .ok roster := by
      simpa [ofGuardians, hc, Except.bind] using h
    obtain ⟨hi, hg⟩ := isIndexed_empty.addAll h'
    have hgs : roster.guardians = guardians.filter (!·.revoked) := by simpa using hg
    refine ⟨hi, hgs, fun g hm => Guardian.checkAll_eq_ok_iff.mp hc g ?_⟩
    rw [hgs] at hm
    exact (List.mem_filter.mp hm).1

variable {r : Roster}

theorem IsIndexed.get?_eq_some_iff (hr : r.IsIndexed) {id : String} {g : Guardian} :
    r.get? id = some g ↔ g ∈ r.guardians ∧ g.id = id := by
  simp only [get?, Option.bind_eq_some_iff]
  constructor
  · rintro ⟨place, hl, hp⟩
    have hid := (hr.id id place).mp hl
    rw [hp] at hid
    exact ⟨List.mem_of_getElem? hp, by simpa using hid⟩
  · rintro ⟨hm, rfl⟩
    obtain ⟨place, hp⟩ := List.mem_iff_getElem?.mp hm
    exact ⟨place, (hr.id _ place).mpr (by simp [hp]), hp⟩

theorem IsIndexed.withKey?_eq_some_iff (hr : r.IsIndexed) {key : Bytes} {g : Guardian} :
    r.withKey? key = some g ↔ g ∈ r.guardians ∧ g.publicKey = key := by
  simp only [withKey?, Option.bind_eq_some_iff]
  constructor
  · rintro ⟨place, hl, hp⟩
    have hkey := (hr.key key place).mp hl
    rw [hp] at hkey
    exact ⟨List.mem_of_getElem? hp, by simpa using hkey⟩
  · rintro ⟨hm, rfl⟩
    obtain ⟨place, hp⟩ := List.mem_iff_getElem?.mp hm
    exact ⟨place, (hr.key _ place).mpr (by simp [hp]), hp⟩

theorem IsIndexed.eq_of_id (hr : r.IsIndexed) {a b : Guardian} (ha : a ∈ r.guardians)
    (hb : b ∈ r.guardians) (h : a.id = b.id) : a = b := by
  have hga := hr.get?_eq_some_iff.mpr ⟨ha, h⟩
  have hgb := hr.get?_eq_some_iff.mpr ⟨hb, rfl⟩
  exact Option.some.inj (hga.symm.trans hgb)

theorem IsIndexed.eq_of_publicKey (hr : r.IsIndexed) {a b : Guardian} (ha : a ∈ r.guardians)
    (hb : b ∈ r.guardians) (h : a.publicKey = b.publicKey) : a = b := by
  have hga := hr.withKey?_eq_some_iff.mpr ⟨ha, h⟩
  have hgb := hr.withKey?_eq_some_iff.mpr ⟨hb, rfl⟩
  exact Option.some.inj (hga.symm.trans hgb)

theorem IsIndexed.nodup_guardians (hr : r.IsIndexed) : r.guardians.Nodup := by
  apply List.pairwise_iff_getElem.mpr
  intro i j hi hj hij heq
  have hfirst := (hr.id r.guardians[j].id i).mpr (by simp [List.getElem?_eq_getElem hi, heq])
  have hsecond := (hr.id r.guardians[j].id j).mpr (by simp [List.getElem?_eq_getElem hj])
  rw [hfirst, Option.some.injEq] at hsecond
  omega

theorem IsIndexed.behind?_eq_some_iff (hr : r.IsIndexed) {e : Envelope} {g : Guardian} :
    r.behind? e = some g ↔ g ∈ r.guardians ∧ e.publicKey = g.publicKey ∧
      (e.guardianId.bind Text.stated? = none ∨ e.guardianId.bind Text.stated? = some g.id) := by
  unfold behind?
  cases hs : e.guardianId.bind Text.stated? with
  | none =>
    rw [hr.withKey?_eq_some_iff]
    simp [eq_comm]
  | some id =>
    simp only [Option.filter_eq_some_iff, hr.get?_eq_some_iff, decide_eq_true_eq]
    constructor
    · rintro ⟨⟨hm, rfl⟩, hkey⟩
      exact ⟨hm, hkey.symm, .inr rfl⟩
    · rintro ⟨hm, hkey, h | h⟩
      · simp at h
      · exact ⟨⟨hm, (Option.some.inj h).symm⟩, hkey.symm⟩

end Roster
end Countersign
