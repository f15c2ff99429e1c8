import Countersign.Tally

/-! The order in which envelopes are counted. It looks at the stated name and at the key; envelopes
that share both are tied, and stay as they were found. -/

namespace Countersign.Envelope

/-- What an envelope is ordered by. -/
def place (e : Envelope) : Option String × Bytes := (e.guardianId, e.publicKey)

/-- Names have their own order, and an envelope without a name is the last. -/
def NameBefore : Option String → Option String → Prop
  | some x, some y => x < y
  | some _, none => True
  | none, _ => False

theorem not_nameBefore_self (x : Option String) : ¬ NameBefore x x := by
  cases x with
  | none => exact id
  | some x => exact String.lt_irrefl x

theorem NameBefore.trans {x y z : Option String} (hxy : NameBefore x y) (hyz : NameBefore y z) :
    NameBefore x z := by
  cases x with
  | none => exact hxy.elim
  | some x =>
    cases y with
    | none => exact hyz.elim
    | some y =>
      cases z with
      | none => trivial
      | some z => exact String.lt_trans hxy hyz

theorem nameBefore_trichotomy (x y : Option String) :
    NameBefore x y ∨ x = y ∨ NameBefore y x := by
  cases x with
  | none =>
    cases y with
    | none => exact .inr (.inl rfl)
    | some y => exact .inr (.inr trivial)
  | some x =>
    cases y with
    | none => exact .inl trivial
    | some y =>
      by_cases hxy : x < y
      · exact .inl hxy
      · by_cases hyx : y < x
        · exact .inr (.inr hyx)
        · have heq := String.le_antisymm (String.not_lt.mp hyx) (String.not_lt.mp hxy)
          exact .inr (.inl (congrArg some heq))

theorem precedes_iff {a b : Envelope} : precedes a b = true ↔
    NameBefore a.guardianId b.guardianId ∨
      (a.guardianId = b.guardianId ∧ a.publicKey ≤ b.publicKey) := by
  unfold precedes
  cases a.guardianId <;> cases b.guardianId <;> simp [NameBefore]

theorem precedes_trans {a b c : Envelope} (hab : precedes a b = true)
    (hbc : precedes b c = true) : precedes a c = true := by
  rw [precedes_iff] at *
  rcases hab with hab | ⟨hab, hle⟩
  · rcases hbc with hbc | ⟨hbc, _⟩
    · exact .inl (hab.trans hbc)
    · exact .inl (hbc ▸ hab)
  · rw [hab]
    exact hbc.imp_right fun ⟨hbc, hle'⟩ => ⟨hbc, List.le_trans hle hle'⟩

theorem precedes_total (a b : Envelope) : (precedes a b || precedes b a) = true := by
  rw [Bool.or_eq_true, precedes_iff, precedes_iff]
  rcases nameBefore_trichotomy a.guardianId b.guardianId with h | h | h
  · exact .inl (.inl h)
  · rcases List.le_total a.publicKey b.publicKey with hle | hle
    · exact .inl (.inr ⟨h, hle⟩)
    · exact .inr (.inr ⟨h.symm, hle⟩)
  · exact .inr (.inl h)

theorem place_eq_of_precedes {a b : Envelope} (hab : precedes a b = true)
    (hba : precedes b a = true) : a.place = b.place := by
  rw [precedes_iff] at *
  rcases hab with hab | ⟨hab, hle⟩
  · rcases hba with hba | ⟨hba, _⟩
    · exact absurd (hab.trans hba) (not_nameBefore_self _)
    · exact absurd (hba ▸ hab) (not_nameBefore_self _)
  · rcases hba with hba | ⟨_, hle'⟩
    · exact absurd (hab ▸ hba) (not_nameBefore_self _)
    · exact Prod.ext hab (List.le_antisymm hle hle')

theorem precedes_of_place_eq {a b : Envelope} (h : a.place = b.place) : precedes a b = true := by
  obtain ⟨hname, hkey⟩ := Prod.mk.inj h
  exact precedes_iff.mpr (.inr ⟨hname, hkey ▸ List.le_refl _⟩)

variable {batch other : List Envelope}

def IsOrdered (batch : List Envelope) : Prop := batch.Pairwise fun a b => precedes a b = true

theorem isOrdered_inOrder (batch : List Envelope) : IsOrdered (inOrder batch) := by
  apply List.pairwise_mergeSort
  · intro a b c
    exact precedes_trans
  · exact precedes_total

theorem perm_inOrder (batch : List Envelope) : (inOrder batch).Perm batch :=
  List.mergeSort_perm batch precedes

theorem isOrdered_of_tied (h : ∀ a ∈ batch, ∀ b ∈ batch, a.place = b.place) : IsOrdered batch :=
  List.pairwise_of_forall_mem_list fun a ha b hb => precedes_of_place_eq (h a ha b hb)

theorem IsOrdered.head_precedes {a b : Envelope} (h : IsOrdered (a :: batch))
    (hb : b ∈ a :: batch) : precedes a b = true := by
  rcases List.mem_cons.mp hb with rfl | hb
  · exact precedes_of_place_eq rfl
  · exact (List.pairwise_cons.mp h).1 b hb

/-! ### Ties -/

/-- The envelopes of a batch that are tied with an envelope, as they stand there. -/
def tied (batch : List Envelope) (e : Envelope) : List Envelope :=
  batch.filter (·.place = e.place)

/-- Tied envelopes stand in one order in both batches. -/
def SameTies (batch other : List Envelope) : Prop := ∀ e, tied batch e = tied other e

theorem mem_tied {a e : Envelope} : a ∈ tied batch e ↔ a ∈ batch ∧ a.place = e.place := by
  simp [tied]

theorem tied_cons (a e : Envelope) (batch : List Envelope) :
    tied (a :: batch) e = if a.place = e.place then a :: tied batch e else tied batch e := by
  simp [tied, List.filter_cons]

theorem isOrdered_tied (batch : List Envelope) (e : Envelope) : IsOrdered (tied batch e) :=
  isOrdered_of_tied fun _ ha _ hb => (mem_tied.mp ha).2.trans (mem_tied.mp hb).2.symm

/-- Ordering a batch leaves tied envelopes as they stand. -/
theorem tied_inOrder (batch : List Envelope) (e : Envelope) :
    tied (inOrder batch) e = tied batch e := by
  have hsub : (tied batch e).Sublist (inOrder batch) := by
    refine List.sublist_mergeSort (fun a b c => ?_) precedes_total (isOrdered_tied batch e)
      List.filter_sublist
    exact precedes_trans
  have hsub' : (tied batch e).Sublist (tied (inOrder batch) e) := by
    have hfiltered := hsub.filter (·.place = e.place)
    simpa only [tied, List.filter_filter, Bool.and_self] using hfiltered
  have hlength := ((perm_inOrder batch).filter (·.place = e.place)).length_eq
  exact (hsub'.eq_of_length_le (Nat.le_of_eq hlength)).symm

theorem IsOrdered.eq_of_sameTies (hb : IsOrdered batch) (ho : IsOrdered other)
    (h : SameTies batch other) : batch = other := by
  induction batch generalizing other with
  | nil =>
    cases other with
    | nil => rfl
    | cons b other =>
      have hmem : b ∈ tied [] b := (h b).symm ▸ mem_tied.mpr ⟨List.mem_cons_self, rfl⟩
      exact absurd hmem List.not_mem_nil
  | cons a batch ih =>
    have ha : a ∈ tied other a := h a ▸ mem_tied.mpr ⟨List.mem_cons_self, rfl⟩
    cases other with
    | nil => exact absurd ha List.not_mem_nil
    | cons b other =>
      have hmem : b ∈ tied (a :: batch) b := (h b).symm ▸ mem_tied.mpr ⟨List.mem_cons_self, rfl⟩
      -- each head stands in the other list, so neither precedes the other strictly
      have hplace : a.place = b.place :=
        place_eq_of_precedes (hb.head_precedes (mem_tied.mp hmem).1)
          (ho.head_precedes (mem_tied.mp ha).1)
      have hheads := h a
      rw [tied_cons, tied_cons, if_pos rfl, if_pos hplace.symm] at hheads
      obtain ⟨rfl, _⟩ := List.cons.inj hheads
      have hrest : SameTies batch other := by
        intro e
        have he := h e
        rw [tied_cons, tied_cons] at he
        split at he
        · exact (List.cons.inj he).2
        · exact he
      rw [ih (List.pairwise_cons.mp hb).2 (List.pairwise_cons.mp ho).2 hrest]

/-- Ordering gives one list for two batches exactly if tied envelopes stand in one order in both. -/
theorem inOrder_eq_iff : inOrder batch = inOrder other ↔ SameTies batch other := by
  constructor
  · intro h e
    rw [← tied_inOrder batch, h, tied_inOrder]
  · intro h
    refine (isOrdered_inOrder batch).eq_of_sameTies (isOrdered_inOrder other) fun e => ?_
    rw [tied_inOrder, tied_inOrder, h e]

theorem sameTies_of_perm (hp : batch.Perm other)
    (h : ∀ a ∈ batch, ∀ b ∈ batch, a.place = b.place → a = b) : SameTies batch other := by
  intro e
  refine List.Perm.eq_of_pairwise (fun a b ha hb _ _ => ?_) (isOrdered_tied batch e)
    (isOrdered_tied other e) (hp.filter _)
  obtain ⟨ha, hae⟩ := mem_tied.mp ha
  obtain ⟨hb, hbe⟩ := mem_tied.mp hb
  exact h a ha b (hp.mem_iff.mpr hb) (hae.trans hbe.symm)

/-! ### Batches that differ among ties -/

/-- The one batch becomes the other when neighbours that are tied change places. -/
inductive Shuffled : List Envelope → List Envelope → Prop where
  | nil : Shuffled [] []
  | cons (e : Envelope) {batch other : List Envelope} (h : Shuffled batch other) :
      Shuffled (e :: batch) (e :: other)
  | swap {a b : Envelope} (h : a.place = b.place) (batch : List Envelope) :
      Shuffled (a :: b :: batch) (b :: a :: batch)
  | trans {batch between other : List Envelope} (h : Shuffled batch between)
      (h' : Shuffled between other) : Shuffled batch other

theorem Shuffled.refl (batch : List Envelope) : Shuffled batch batch := by
  induction batch with
  | nil => exact .nil
  | cons e batch ih => exact .cons e ih

theorem Shuffled.move {a : Envelope} {front : List Envelope}
    (h : ∀ b ∈ front, a.place = b.place) (rest : List Envelope) :
    Shuffled (a :: (front ++ rest)) (front ++ a :: rest) := by
  induction front with
  | nil => exact .refl _
  | cons b front ih =>
    have hswap : Shuffled (a :: b :: (front ++ rest)) (b :: a :: (front ++ rest)) :=
      .swap (h b List.mem_cons_self) _
    exact hswap.trans (.cons b (ih fun c hc => h c (List.mem_cons_of_mem _ hc)))

theorem IsOrdered.shuffled (hb : IsOrdered batch) (ho : IsOrdered other)
    (hp : batch.Perm other) : Shuffled batch other := by
  induction batch generalizing other with
  | nil =>
    obtain rfl := hp.nil_eq
    exact .nil
  | cons a batch ih =>
    obtain ⟨front, rest, rfl⟩ := List.append_of_mem (hp.mem_iff.mp List.mem_cons_self)
    -- what stands in front of the head of the one list in the other is tied with it
    have hfront : ∀ b ∈ front, a.place = b.place := by
      intro b hm
      have hba : precedes b a = true :=
        (List.pairwise_append.mp ho).2.2 b hm a List.mem_cons_self
      have hm' : b ∈ a :: batch := hp.mem_iff.mpr (List.mem_append_left _ hm)
      exact place_eq_of_precedes (hb.head_precedes hm') hba
    have hrest : batch.Perm (front ++ rest) := (hp.trans List.perm_middle).cons_inv
    have hordered : IsOrdered (front ++ rest) :=
      ho.sublist ((List.Sublist.refl front).append (List.sublist_cons_self a rest))
    exact (Shuffled.cons a (ih (List.pairwise_cons.mp hb).2 hordered hrest)).trans
      (.move hfront rest)

/-- The same envelopes, found in two orders, are counted in orders that differ among ties alone. -/
theorem shuffled_inOrder (hp : batch.Perm other) : Shuffled (inOrder batch) (inOrder other) :=
  (isOrdered_inOrder batch).shuffled (isOrdered_inOrder other)
    ((perm_inOrder batch).trans (hp.trans (perm_inOrder other).symm))

end Countersign.Envelope
