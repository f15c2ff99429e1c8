import Mathlib.Data.List.Perm.Basic
import Countersign.Proofs.Cbor.Encoding

/-! Maps with their entries in another order. Where one of them is read, the other is, with what was
read in another order; and a text that is the key of two entries stays so. -/

namespace Countersign.Cbor

variable {room : Nat} {entries other found : List (Cbor × Cbor)}

/-- The same item, but for the order of its entries if it is a map. -/
def SameEntries (item other : Cbor) : Prop :=
  item = other ∨ ∃ entries moved, item = map entries ∧ other = map moved ∧ entries.Perm moved

/-- The same entries in another order, where those of the values that are maps may be in another
order too. -/
def Rearranged (entries other : List (Cbor × Cbor)) : Prop :=
  ∃ moved, entries.Perm moved ∧
    List.Forall₂ (fun e f => e.1 = f.1 ∧ SameEntries e.2 f.2) moved other

theorem SameEntries.symm {item other : Cbor} (h : SameEntries item other) :
    SameEntries other item := by
  rcases h with rfl | ⟨entries, moved, rfl, rfl, h⟩
  · exact .inl rfl
  · exact .inr ⟨moved, entries, rfl, rfl, h.symm⟩

theorem Rearranged.symm (h : Rearranged entries other) :
    Rearranged other entries := by
  obtain ⟨moved, hperm, hsame⟩ := h
  -- the changes in place can be made first and the entries moved after
  obtain ⟨between, hfront, hback⟩ := List.perm_comp_forall₂ hperm hsame
  refine ⟨between, hback.symm, hfront.flip.imp ?_⟩
  rintro e f ⟨hkey, hitem⟩
  exact ⟨hkey.symm, hitem.symm⟩

theorem asReadEntries?_eq_some_iff : asReadEntries? room entries = some found ↔
    List.Forall₂ (fun e f => asRead? room e.1 = some f.1 ∧ asRead? room e.2 = some f.2)
      entries found := by
  induction entries generalizing found with
  | nil =>
    rw [asReadEntries?, List.forall₂_nil_left_iff, Option.some.injEq]
    exact eq_comm
  | cons e rest ih =>
    obtain ⟨key, item⟩ := e
    rw [asReadEntries?, List.forall₂_cons_left_iff]
    simp only [Option.bind_eq_bind, Option.bind_eq_some_iff, Option.pure_def, Option.some.injEq]
    constructor
    · rintro ⟨k, hk, v, hv, more, hr, rfl⟩
      exact ⟨(k, v), more, ⟨hk, hv⟩, ih.mp hr, rfl⟩
    · rintro ⟨⟨k, v⟩, more, ⟨hk, hv⟩, hr, rfl⟩
      exact ⟨k, hk, v, hv, more, ih.mpr hr, rfl⟩

theorem asReadEntries?_perm (h : entries.Perm other)
    (hf : asReadEntries? room entries = some found) :
    ∃ moved, asReadEntries? room other = some moved ∧ found.Perm moved := by
  obtain ⟨moved, hread, hperm⟩ :=
    List.perm_comp_forall₂ h.symm (asReadEntries?_eq_some_iff.mp hf)
  exact ⟨moved, asReadEntries?_eq_some_iff.mpr hread, hperm.symm⟩

theorem asRead?_sameEntries {item moved read : Cbor} (h : SameEntries item moved)
    (hr : asRead? room item = some read) :
    ∃ after, asRead? room moved = some after ∧ SameEntries read after := by
  rcases h with rfl | ⟨entries, other, rfl, rfl, h⟩
  · exact ⟨read, hr, .inl rfl⟩
  · cases room with
    | zero => exact nomatch hr
    | succ room =>
      obtain ⟨found, hf, rfl⟩ := Option.map_eq_some_iff.mp hr
      obtain ⟨between, hm, hperm⟩ := asReadEntries?_perm h hf
      exact ⟨map between, congrArg (Option.map map) hm, .inr ⟨found, between, rfl, rfl, hperm⟩⟩

theorem asReadEntries?_sameEntries
    (h : List.Forall₂ (fun e f => e.1 = f.1 ∧ SameEntries e.2 f.2) entries other)
    (hf : asReadEntries? room entries = some found) :
    ∃ moved, asReadEntries? room other = some moved ∧
      List.Forall₂ (fun e f => e.1 = f.1 ∧ SameEntries e.2 f.2) found moved := by
  simp only [asReadEntries?_eq_some_iff] at hf ⊢
  induction h generalizing found with
  | nil =>
    cases hf
    exact ⟨[], .nil, .nil⟩
  | cons hef _ ih =>
    obtain ⟨g, after, hg, hafter, rfl⟩ := List.forall₂_cons_left_iff.mp hf
    obtain ⟨moved, hm, hall⟩ := ih hafter
    obtain ⟨v, hv, hsame⟩ := asRead?_sameEntries hef.2 hg.2
    exact ⟨(g.1, v) :: moved, .cons ⟨hef.1 ▸ hg.1, hv⟩ hm, .cons ⟨rfl, hsame⟩ hall⟩

theorem asReadEntries?_rearranged (h : Rearranged entries other)
    (hf : asReadEntries? room entries = some found) :
    ∃ moved, asReadEntries? room other = some moved ∧ Rearranged found moved := by
  obtain ⟨between, hperm, hsame⟩ := h
  obtain ⟨read, hread, hfound⟩ := asReadEntries?_perm hperm hf
  obtain ⟨moved, hm, hall⟩ := asReadEntries?_sameEntries hsame hread
  exact ⟨moved, hm, read, hfound, hall⟩

/-! ### Repeated keys -/

/-- Whether a text is the key of two of the entries. -/
def Repeats (entries : List (Cbor × Cbor)) : Prop :=
  ∃ key first second, [(.text key, first), (.text key, second)].Sublist entries

theorem eq_text_of_asRead {key : String} {read : Cbor} (h : asRead? room (text key) = some read) :
    read = text key := by
  cases h
  rfl

theorem exists_sublist_of_asRead {part : List (Cbor × Cbor)} (hs : part.Sublist entries)
    (h : asReadEntries? room entries = some found) :
    ∃ read, read.Sublist found ∧ asReadEntries? room part = some read := by
  simp only [asReadEntries?_eq_some_iff] at h ⊢
  induction hs generalizing found with
  | slnil =>
    cases h
    exact ⟨[], .slnil, .nil⟩
  | cons e _ ih =>
    obtain ⟨f, more, _, hmore, rfl⟩ := List.forall₂_cons_left_iff.mp h
    obtain ⟨read, hsub, hread⟩ := ih hmore
    exact ⟨read, hsub.cons f, hread⟩
  | cons_cons e _ ih =>
    obtain ⟨f, more, hf, hmore, rfl⟩ := List.forall₂_cons_left_iff.mp h
    obtain ⟨read, hsub, hread⟩ := ih hmore
    exact ⟨f :: read, hsub.cons_cons f, .cons hf hread⟩

theorem repeats_of_asRead (h : Repeats entries) (hf : asReadEntries? room entries = some found) :
    Repeats found := by
  obtain ⟨key, first, second, hs⟩ := h
  obtain ⟨read, hsub, hread⟩ := exists_sublist_of_asRead hs hf
  rw [asReadEntries?_eq_some_iff] at hread
  obtain ⟨⟨k, v⟩, more, ⟨hk, _⟩, hmore, rfl⟩ := List.forall₂_cons_left_iff.mp hread
  obtain ⟨⟨l, w⟩, rest, ⟨hl, _⟩, hrest, rfl⟩ := List.forall₂_cons_left_iff.mp hmore
  obtain rfl := List.forall₂_nil_left_iff.mp hrest
  obtain rfl : k = text key := eq_text_of_asRead hk
  obtain rfl : l = text key := eq_text_of_asRead hl
  exact ⟨key, v, w, hsub⟩

theorem exists_mem_of_asRead {e : Cbor × Cbor} (h : e ∈ entries)
    (hf : asReadEntries? room entries = some found) :
    ∃ key item, (key, item) ∈ found ∧ asRead? room e.1 = some key ∧
      asRead? room e.2 = some item := by
  obtain ⟨read, hsub, hread⟩ := exists_sublist_of_asRead (List.singleton_sublist.mpr h) hf
  rw [asReadEntries?_eq_some_iff] at hread
  obtain ⟨⟨key, item⟩, more, ⟨hk, hi⟩, hmore, rfl⟩ := List.forall₂_cons_left_iff.mp hread
  exact ⟨key, item, hsub.subset List.mem_cons_self, hk, hi⟩

end Countersign.Cbor
