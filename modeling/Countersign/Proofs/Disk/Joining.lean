import Countersign.Proofs.Disk.Directory
import Mathlib.Data.List.TakeWhile

/-! Joining a name to the path of a directory, and taking it off again. What is the same path is told
by the names in it, of which the empty ones and single dots do not count. -/

namespace Countersign.Path

def isStep (name : String) : Bool := name ≠ "" ∧ name ≠ "."

/-- The names that count. A single dot counts where a relative path starts with it. -/
def counted : List String → List String
  | [] => []
  | first :: rest => (if first = "" then [] else [first]) ++ rest.filter isStep

def steps (path : String) : List String := counted (names path)

/-- Two texts of one path. -/
structure AreSame (first second : String) : Prop where
  absolute : isAbsolute first = isAbsolute second
  steps : steps first = steps second

/-- The name of the entry that a path leads to, unless the path ends in dots. -/
def fileName? (path : String) : Option String :=
  (steps path).getLast?.filter fun name => name ≠ "." ∧ name ≠ ".."

variable {first second third above base name path : String}

theorem AreSame.refl (path : String) : AreSame path path := ⟨rfl, rfl⟩

theorem AreSame.symm (h : AreSame first second) : AreSame second first :=
  ⟨h.absolute.symm, h.steps.symm⟩

theorem AreSame.trans (h : AreSame first second) (h' : AreSame second third) :
    AreSame first third := ⟨h.absolute.trans h'.absolute, h.steps.trans h'.steps⟩

theorem steps_separated (above rest : String) :
    steps (above ++ "/" ++ rest) = steps above ++ (names rest).filter isStep := by
  rw [steps, steps, names_append]
  obtain ⟨name, more, hnames⟩ := List.exists_cons_of_ne_nil (names_ne_nil above)
  simp only [hnames, List.cons_append, counted, List.filter_append, List.append_assoc]

/-- A separator at the end says nothing. -/
theorem steps_separator (above : String) : steps (above ++ "/") = steps above := by
  have hsteps := steps_separated above ""
  rwa [String.append_empty, show (names "").filter isStep = [] by decide +kernel,
    List.append_nil] at hsteps

theorem areSame_separator (h : above ≠ "") : AreSame above (above ++ "/") :=
  ⟨(isAbsolute_of_ne_empty h "/").symm, (steps_separator above).symm⟩

theorem areSame_dot (above : String) : AreSame (above ++ "/") (above ++ "/" ++ ".") := by
  refine ⟨(isAbsolute_append (by decide) (above ++ "/")).symm, ?_⟩
  rw [steps_separator, steps_separated, show (names ".").filter isStep = [] by decide +kernel,
    List.append_nil]

/-! ### Parents -/

theorem areSame_dropEnd (reversed : List Char) :
    AreSame (String.ofList (dropEnd reversed).reverse) (String.ofList reversed.reverse) := by
  have hback : ∀ (c : Char) (rest : List Char), String.ofList (c :: rest).reverse =
      String.ofList rest.reverse ++ String.ofList [c] := fun c rest => by
    rw [List.reverse_cons, String.ofList_append]
  fun_induction dropEnd reversed with
  | case1 => exact .refl _
  | case2 rest hrest ih =>
    refine ih.trans ?_
    rw [hback]
    exact areSame_separator (by simpa using hrest)
  | case3 rest ih =>
    refine ih.trans ?_
    rw [hback '.', hback '/']
    exact areSame_dot _
  | case4 => exact .refl _

/-- A name that a path can end in and be taken off again. -/
structure IsEnd (name : List Char) : Prop where
  slash : '/' ∉ name
  notEmpty : name ≠ []
  notDot : name ≠ ['.']

theorem IsEnd.dropEnd {name : List Char} (h : IsEnd name) (rest : List Char) :
    dropEnd (name.reverse ++ rest) = name.reverse ++ rest := by
  have hslash : '/' ∉ name.reverse := by simpa using h.slash
  have hdot : name.reverse ≠ ['.'] := fun hd => h.notDot (by simpa using congrArg List.reverse hd)
  obtain ⟨c, more, hc⟩ := List.exists_cons_of_ne_nil (List.reverse_ne_nil_iff.mpr h.notEmpty)
  rw [hc] at hslash hdot ⊢
  have hfirst : c ≠ '/' := fun hh => hslash (by simp [hh])
  cases more with
  | nil =>
    have hc : c ≠ '.' := fun hh => hdot (by rw [hh])
    simp [Path.dropEnd, hfirst, hc]
  | cons d more =>
    have hsecond : d ≠ '/' := fun hh => hslash (by simp [hh])
    simp [Path.dropEnd, hfirst, hsecond]

/-- What is left of a path without the name at its end. -/
theorem IsEnd.parent? {name : List Char} (h : IsEnd name) (front : List Char) :
    parent? (String.ofList (front ++ name)) =
      some (String.ofList (Path.dropEnd (front.reverse.dropWhile (· ≠ '/'))).reverse) := by
  have hall : ∀ c ∈ name.reverse, (c ≠ '/' : Bool) = true := fun c hc =>
    decide_eq_true fun hh => h.slash (hh ▸ List.mem_reverse.mp hc)
  unfold Path.parent?
  rw [String.toList_ofList, List.reverse_append, h.dropEnd]
  split
  · rename_i heq
    exact absurd (List.reverse_eq_nil_iff.mp (List.append_eq_nil_iff.mp heq).1) h.notEmpty
  · rename_i heq
    obtain ⟨c, more, hc⟩ := List.exists_cons_of_ne_nil (List.reverse_ne_nil_iff.mpr h.notEmpty)
    have hslash : '/' ∉ name.reverse := by simpa using h.slash
    rw [hc, List.cons_append] at heq
    exact absurd (List.mem_cons_self) ((List.cons.inj heq).1 ▸ hc ▸ hslash)
  · rw [List.dropWhile_append_of_pos hall]

theorem dropEnd_eq_nil_iff {reversed : List Char} : dropEnd reversed = [] ↔ reversed = [] := by
  fun_induction dropEnd reversed with
  | case1 => simp
  | case2 rest hrest ih => simpa using fun hnil => hrest (ih.mp hnil)
  | case3 rest ih => simpa using ih
  | case4 => exact Iff.rfl

theorem eq_empty_of_areSame (h : AreSame path "") : path = "" := by
  cases hl : path.toList with
  | nil => exact String.toList_inj.mp (by rw [hl]; rfl)
  | cons c rest =>
    exfalso
    have hrelative : path.toList.head? ≠ some '/' := fun hh =>
      absurd (h.absolute.symm.trans (isAbsolute_iff.mpr hh)) (by decide)
    have hc : c ≠ '/' := fun hh => hrelative (by rw [hl, hh]; rfl)
    have hsteps := h.steps
    rw [show steps "" = [] by decide +kernel, steps, names, hl, names.splitNames, if_neg hc] at hsteps
    split at hsteps <;> simp [counted] at hsteps

/-- Where the parent is the empty path, there is nothing in front of the name. -/
theorem IsEnd.slash_not_mem {front name : List Char} (h : IsEnd name)
    (hp : Path.parent? (String.ofList (front ++ name)) = some above) (hs : AreSame above "") :
    '/' ∉ front := by
  obtain rfl := eq_empty_of_areSame hs
  rw [h.parent?] at hp
  have hnil := congrArg String.toList (Option.some.inj hp)
  rw [String.toList_ofList, String.toList_empty, List.reverse_eq_nil_iff, dropEnd_eq_nil_iff,
    List.dropWhile_eq_nil_iff] at hnil
  intro hm
  simpa using hnil '/' (List.mem_reverse.mpr hm)

/-! ### Joining -/

theorem join_of_absolute (h : isAbsolute name = true) (base : String) : join base name = name := by
  rw [join, h, Bool.true_or, if_pos rfl]

theorem join_empty (name : String) : join "" name = name := by
  rw [join, if_pos]
  exact Bool.or_true _

/-- A name without a separator is put behind one, unless no directory is named. -/
theorem join_cases (h : isAbsolute name = false) (base : String) :
    (base = "" ∧ join base name = name) ∨
      ∃ above, join base name = above ++ "/" ++ name ∧
        (base = above ++ "/" ∨ (base = above ∧ base ≠ "")) := by
  by_cases hempty : base = ""
  · exact .inl ⟨hempty, by rw [hempty, join_empty]⟩
  · have hshort : (isAbsolute name || base.isEmpty) = false := by simpa [h] using hempty
    rw [join, hshort, if_neg Bool.false_ne_true]
    split
    · rename_i hlast
      obtain ⟨front, hfront⟩ := List.getLast?_eq_some_iff.mp hlast
      have hbase : base = String.ofList front ++ "/" :=
        String.toList_inj.mp (by rw [hfront]; simp)
      exact .inr ⟨String.ofList front, by rw [hbase], .inl hbase⟩
    · exact .inr ⟨base, rfl, .inr ⟨rfl, hempty⟩⟩

theorem areSame_of_joined (h : base = above ++ "/" ∨ (base = above ∧ base ≠ "")) :
    AreSame (above ++ "/") base := by
  rcases h with rfl | ⟨rfl, hempty⟩
  · exact .refl _
  · exact (areSame_separator hempty).symm

theorem join_append (h : name ≠ "") (more : String) :
    join base (name ++ more) = join base name ++ more := by
  unfold join
  rw [isAbsolute_of_ne_empty h]
  split
  · rfl
  · split <;> simp [String.append_assoc]

theorem join_inj {other : String} (h : isAbsolute name = isAbsolute other) :
    join base name = join base other ↔ name = other := by
  refine ⟨fun hjoin => ?_, fun heq => heq ▸ rfl⟩
  unfold join at hjoin
  rw [h] at hjoin
  split at hjoin
  · exact hjoin
  · split at hjoin <;> simpa using hjoin

theorem isAbsolute_of_not_mem (h : '/' ∉ name.toList) : isAbsolute name = false := by
  rw [Bool.eq_false_iff, Ne, isAbsolute_iff]
  exact fun hh => h (List.mem_of_mem_head? hh)

/-- The directory that a name is joined to is the parent of the path. -/
theorem parent?_join (h : IsEnd name.toList) (base : String) :
    ∃ above, parent? (join base name) = some above ∧ AreSame above base := by
  rcases join_cases (isAbsolute_of_not_mem h.slash) base with ⟨rfl, hj⟩ | ⟨front, hj, hbase⟩
  · have hp := h.parent? []
    rw [List.nil_append, String.ofList_toList] at hp
    exact ⟨"", by rw [hj, hp]; rfl, .refl ""⟩
  · have hp := h.parent? (front.toList ++ ['/'])
    have hwhole : String.ofList (front.toList ++ ['/'] ++ name.toList) = join base name := by
      rw [hj]
      simp [String.append_assoc]
    have hdrop : (front.toList ++ ['/']).reverse.dropWhile (· ≠ '/') =
        (front.toList ++ ['/']).reverse := by simp
    rw [hwhole, hdrop] at hp
    refine ⟨_, hp, (areSame_dropEnd _).trans ?_⟩
    have hfront : String.ofList (front.toList ++ ['/']) = front ++ "/" := by simp
    rw [List.reverse_reverse, hfront]
    exact areSame_of_joined hbase

theorem steps_join (h : IsEnd name.toList) (base : String) :
    steps (join base name) = steps base ++ [name] := by
  have hnames : names name = [name] := by
    rw [names, splitNames_of_not_mem h.slash]
    simp
  have hne : name ≠ "" := fun hh => h.notEmpty (by simp [hh])
  have hdot : name ≠ "." := fun hh => h.notDot (by simp [hh])
  rcases join_cases (isAbsolute_of_not_mem h.slash) base with ⟨rfl, hj⟩ | ⟨front, hj, hbase⟩
  · rw [hj, show steps "" = [] by decide +kernel, steps, hnames]
    simp [counted, hne]
  · rw [hj, steps_separated, hnames, ← (areSame_of_joined hbase).steps, steps_separator]
    simp [isStep, hne, hdot]

theorem fileName?_join (h : IsEnd name.toList) (hup : name ≠ "..") (base : String) :
    fileName? (join base name) = some name := by
  have hdot : name ≠ "." := fun hh => h.notDot (by simp [hh])
  rw [fileName?, steps_join h, List.getLast?_concat]
  simp [Option.filter, hdot, hup]

end Countersign.Path
