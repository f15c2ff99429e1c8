import Countersign.Text.Blank
import Mathlib.Data.List.DropRight

/-! Trimming leaves a text that starts and ends with no blank, and lowering keeps blanks apart
from other characters. -/

namespace Countersign.Text

theorem dropWhile_blank_of_head {s : List Char} (h : ∀ c ∈ s.head?, isBlank c = false) :
    s.dropWhile isBlank = s := by
  cases s with
  | nil => rfl
  | cons c s =>
    have hc : isBlank c = false := h c (by simp)
    simp [hc]

theorem head_dropWhile_blank (s : List Char) :
    ∀ c ∈ (s.dropWhile isBlank).head?, isBlank c = false := by
  intro c hc
  have hh := List.head?_dropWhile_not isBlank s
  rw [Option.mem_def.mp hc] at hh
  simpa using hh

theorem trim_eq_self {s : List Char} (hhead : ∀ c ∈ s.head?, isBlank c = false)
    (hlast : ∀ c ∈ s.getLast?, isBlank c = false) : trim s = s := by
  have hr : s.rdropWhile isBlank = s := by
    rw [List.rdropWhile_eq_self_iff]
    intro hne
    have hl := hlast (s.getLast hne) (List.getLast?_eq_some_getLast hne)
    simp [hl]
  have ht : trim s = (s.dropWhile isBlank).rdropWhile isBlank := rfl
  rw [ht, dropWhile_blank_of_head hhead, hr]

theorem head_trim (s : List Char) : ∀ c ∈ (trim s).head?, isBlank c = false := by
  intro c hc
  have hp : trim s <+: s.dropWhile isBlank := List.rdropWhile_prefix isBlank _
  obtain ⟨more, hmore⟩ := hp
  apply head_dropWhile_blank s
  rw [← hmore, List.head?_append, Option.mem_def.mp hc]
  rfl

theorem last_trim (s : List Char) : ∀ c ∈ (trim s).getLast?, isBlank c = false := by
  intro c hc
  have hne : trim s ≠ [] := by
    intro he
    simp [he] at hc
  have hl : ¬ isBlank ((trim s).getLast hne) = true :=
    List.rdropWhile_last_not isBlank (s.dropWhile isBlank) hne
  rw [List.getLast?_eq_some_getLast hne] at hc
  rw [← Option.mem_some.mp hc]
  simpa using hl

@[simp]
theorem trim_trim (s : List Char) : trim (trim s) = trim s :=
  trim_eq_self (head_trim s) (last_trim s)

theorem trim_of_no_blank {s : List Char} (h : ∀ c ∈ s, isBlank c = false) : trim s = s :=
  trim_eq_self (fun c hc => h c (List.mem_of_mem_head? hc))
    fun c hc => h c (List.mem_of_mem_getLast? hc)

/-- The text holds the characters, with nothing but blanks around them. -/
def IsPadded (core s : List Char) : Prop :=
  ∃ before after, s = before ++ core ++ after ∧ ∀ c ∈ before ++ after, isBlank c = true

theorem isPadded_of_all {core s : List Char} (before after : List Char)
    (h : s = before ++ core ++ after) (hblank : (before ++ after).all isBlank = true) :
    IsPadded core s :=
  ⟨before, after, h, List.all_eq_true.mp hblank⟩

theorem trim_of_isPadded {core s : List Char} (h : IsPadded core s)
    (hcore : ∀ c ∈ core, isBlank c = false) : trim s = core := by
  obtain ⟨before, after, rfl, hblank⟩ := h
  cases core with
  | nil =>
    have hall : (before ++ after).dropWhile isBlank = [] := List.dropWhile_eq_nil_iff.mpr hblank
    simp [trim, hall]
  | cons c rest =>
    have hbefore : ∀ b ∈ before, isBlank b = true :=
      fun b hb => hblank b (List.mem_append_left after hb)
    have hafter : ∀ b ∈ after.reverse, isBlank b = true :=
      fun b hb => hblank b (List.mem_append_right before (List.mem_reverse.mp hb))
    have hfirst : isBlank c = false := hcore c List.mem_cons_self
    have htrim : trim (c :: rest) = c :: rest := trim_of_no_blank hcore
    rw [trim, List.dropWhile_cons_of_neg (by simp [hfirst])] at htrim
    rw [trim, List.append_assoc, List.dropWhile_append_of_pos hbefore, List.cons_append,
      List.dropWhile_cons_of_neg (by simp [hfirst]), ← List.cons_append, List.reverse_append,
      List.dropWhile_append_of_pos hafter, htrim]

theorem mem_of_mem_trim {s : List Char} {c : Char} (h : c ∈ trim s) : c ∈ s :=
  (List.dropWhile_sublist isBlank).subset ((List.rdropWhile_prefix isBlank _).subset h)

theorem trim_eq_nil_iff {s : List Char} : trim s = [] ↔ ∀ c ∈ s, isBlank c = true := by
  constructor
  · intro h
    have hall : ∀ c ∈ s.dropWhile isBlank, isBlank c = true :=
      List.rdropWhile_eq_nil_iff.mp h
    have hnil : s.dropWhile isBlank = [] := by
      cases hd : s.dropWhile isBlank with
      | nil => rfl
      | cons c rest =>
        have hno := head_dropWhile_blank s c (by simp [hd])
        have hyes := hall c (by simp [hd])
        simp [hno] at hyes
    exact List.dropWhile_eq_nil_iff.mp hnil
  · intro h
    have hnil : s.dropWhile isBlank = [] := List.dropWhile_eq_nil_iff.mpr h
    simp [trim, hnil]

theorem trim_ne_nil_iff {s : List Char} : trim s ≠ [] ↔ ∃ c ∈ s, isBlank c = false := by
  rw [Ne, trim_eq_nil_iff]
  simp

theorem stated?_eq_some_iff {s t : String} :
    stated? s = some t ↔ (∃ c ∈ s.toList, isBlank c = false) ∧ trimmed s = t := by
  rw [← trim_ne_nil_iff, stated?]
  by_cases hs : trim s.toList = []
  · simp [hs]
  · simp [hs]

/-- What is stated can be stated again as it is. -/
theorem stated?_of_stated? {s t : String} (h : stated? s = some t) : stated? t = some t := by
  obtain ⟨hs, rfl⟩ := stated?_eq_some_iff.mp h
  have htrim : trim (trimmed s).toList = trim s.toList := by
    rw [trimmed, String.toList_ofList, trim_trim]
  refine stated?_eq_some_iff.mpr ⟨?_, congrArg String.ofList htrim⟩
  rw [← trim_ne_nil_iff, htrim]
  exact trim_ne_nil_iff.mpr hs

theorem toNat_toLower (c : Char) :
    c.toLower.toNat = if 65 ≤ c.toNat ∧ c.toNat ≤ 90 then c.toNat + 32 else c.toNat := by
  have hrange : (c.val ≥ 'A'.val ∧ c.val ≤ 'Z'.val) ↔ 65 ≤ c.toNat ∧ c.toNat ≤ 90 := by
    simp [UInt32.le_iff_toNat_le]
  by_cases h : c.val ≥ 'A'.val ∧ c.val ≤ 'Z'.val
  · have hgap : ('a'.val - 'A'.val).toNat = 32 := by decide
    have hn := hrange.mp h
    have hsum : (c.val + ('a'.val - 'A'.val)).toNat = c.toNat + 32 := by
      rw [UInt32.toNat_add, hgap]
      simp only [Char.toNat_val]
      omega
    have hlow : c.toLower.val = c.val + ('a'.val - 'A'.val) := congrArg Char.val (dif_pos h)
    rw [if_pos hn, ← hsum, ← hlow, Char.toNat_val]
  · have hsame : c.toLower = c := dif_neg h
    rw [if_neg (fun hn => h (hrange.mpr hn)), hsame]

@[simp]
theorem isBlank_toLower (c : Char) : isBlank c.toLower = isBlank c := by
  by_cases h : 65 ≤ c.toNat ∧ c.toNat ≤ 90
  · simp only [isBlank, toNat_toLower, if_pos h]
    grind
  · simp only [isBlank, toNat_toLower, if_neg h]

@[simp]
theorem toLower_toLower (c : Char) : c.toLower.toLower = c.toLower := by
  apply Char.toNat_inj.mp
  rw [toNat_toLower c.toLower, if_neg]
  rw [toNat_toLower]
  split <;> omega

end Countersign.Text
