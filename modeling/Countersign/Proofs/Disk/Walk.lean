import Countersign.Proofs.Disk.Growth

/-! Where paths lead. A walk is decided by the directories and links on its way, so that it leads
to the same place as long as these stay; and the paths of one directory lead there together. -/

namespace Countersign.Disk

/-- The directories and links of the first tree stand in the second as well. -/
structure KeepsWays (disk other : Disk) : Prop where
  working : other.working = disk.working
  directory : ∀ place, disk.node? place = some .directory → other.node? place = some .directory
  link : ∀ place target, disk.node? place = some (.link target) →
    other.node? place = some (.link target)

theorem Grows.keepsWays {disk grown : Disk} (h : disk.Grows grown) : disk.KeepsWays grown := by
  refine ⟨h.working, fun place hn => ?_, fun place target hn => ?_⟩
  · obtain ⟨_, hc⟩ := h.of_some hn
    exact hc
  · obtain ⟨_, hc⟩ := h.of_some hn
    exact hc

/-- Whether an entry can have the name. -/
structure IsName (name : String) : Prop where
  notHere : ¬ (name = "" ∨ name = ".")
  notUp : name ≠ ".."
  fits : isTooLong name = false

/-- The names lead from a directory to a place, whatever stands there. -/
inductive Leads (disk : Disk) (follow : Bool) : Nat → Location → List String → Location → Prop where
  | here (links : Nat) (here : Location) : Leads disk follow links here [] here
  | skip {links : Nat} {here place : Location} {name : String} {rest : List String}
      (hn : name = "" ∨ name = ".") (h : Leads disk follow links here rest place) :
      Leads disk follow links here (name :: rest) place
  | up {links : Nat} {here place : Location} {rest : List String}
      (h : Leads disk follow links here.dropLast rest place) :
      Leads disk follow links here (".." :: rest) place
  | into {links : Nat} {here place : Location} {name : String} {rest : List String}
      (hn : IsName name) (hd : disk.node? (here ++ [name]) = some .directory)
      (h : Leads disk follow links (here ++ [name]) rest place) :
      Leads disk follow links here (name :: rest) place
  | along {links : Nat} {here place : Location} {name target : String} {rest : List String}
      (hn : IsName name) (hl : disk.node? (here ++ [name]) = some (.link target))
      (hr : rest ≠ [] ∨ follow = true)
      (h : Leads disk follow links (if Path.isAbsolute target then [] else here)
        (Path.names target ++ rest) place) :
      Leads disk follow (links + 1) here (name :: rest) place
  | last {links : Nat} {here : Location} {name : String} (hn : IsName name)
      (hl : ∀ target, disk.node? (here ++ [name]) = some (.link target) → follow = false) :
      Leads disk follow links here [name] (here ++ [name])

variable {disk : Disk} {follow : Bool} {links : Nat} {here place : Location} {names : List String}

theorem leads_of_walk {node : Option Node}
    (h : disk.walk follow links here names = .ok (place, node)) :
    disk.Leads follow links here names place ∧ node = disk.node? place := by
  fun_induction walk disk follow links here names with
  | case1 links here =>
    obtain ⟨rfl, rfl⟩ := Prod.mk.inj (Except.ok.inj h)
    exact ⟨.here links here, rfl⟩
  | case2 links here name rest hn ih => exact ⟨.skip hn (ih h).1, (ih h).2⟩
  | case3 links here rest hn ih => exact ⟨.up (ih h).1, (ih h).2⟩
  | case4 => exact nomatch h
  | case5 links here name rest hn hu ht place' hnode hr =>
    obtain ⟨rfl, rfl⟩ := Prod.mk.inj (Except.ok.inj h)
    obtain rfl := List.isEmpty_iff.mp hr
    refine ⟨.last ⟨hn, hu, by simpa using ht⟩ (fun target ht => ?_), hnode.symm⟩
    simp [place', hnode] at ht
  | case6 => exact nomatch h
  | case7 links here name rest hn hu ht place' hnode ih =>
    exact ⟨.into ⟨hn, hu, by simpa using ht⟩ hnode (ih h).1, (ih h).2⟩
  | case8 links here name rest hn hu ht place' number content hnode hr =>
    obtain ⟨rfl, rfl⟩ := Prod.mk.inj (Except.ok.inj h)
    obtain rfl := List.isEmpty_iff.mp hr
    refine ⟨.last ⟨hn, hu, by simpa using ht⟩ (fun target ht => ?_), hnode.symm⟩
    simp [place', hnode] at ht
  | case9 => exact nomatch h
  | case10 links here name rest hn hu ht place' hnode hr =>
    obtain ⟨rfl, rfl⟩ := Prod.mk.inj (Except.ok.inj h)
    obtain rfl := List.isEmpty_iff.mp hr
    refine ⟨.last ⟨hn, hu, by simpa using ht⟩ (fun target ht => ?_), hnode.symm⟩
    simp [place', hnode] at ht
  | case11 => exact nomatch h
  | case12 links here name rest hn hu ht place' target hnode hr =>
    obtain ⟨rfl, rfl⟩ := Prod.mk.inj (Except.ok.inj h)
    simp only [Bool.and_eq_true, List.isEmpty_iff, Bool.not_eq_true'] at hr
    obtain ⟨rfl, hf⟩ := hr
    exact ⟨.last ⟨hn, hu, by simpa using ht⟩ (fun _ _ => hf), hnode.symm⟩
  | case13 => exact nomatch h
  | case14 here name rest hn hu ht place' target hnode hr links ih =>
    have hr' : rest ≠ [] ∨ follow = true := by
      cases rest with
      | nil => exact .inr (by simpa using hr)
      | cons next rest => exact .inl (List.cons_ne_nil next rest)
    simp only [dite_eq_ite] at ih
    exact ⟨.along ⟨hn, hu, by simpa using ht⟩ hnode hr' (ih h).1, (ih h).2⟩

theorem Leads.walk (h : disk.Leads follow links here names place) :
    disk.walk follow links here names = .ok (place, disk.node? place) := by
  induction h with
  | here links here => rw [Disk.walk]
  | skip hn h ih => rw [Disk.walk, if_pos hn, ih]
  | up h ih => rw [Disk.walk, if_neg (by decide), if_pos rfl, ih]
  | into hn hd h ih =>
    rw [Disk.walk, if_neg hn.notHere, if_neg hn.notUp, hn.fits]
    simp only [hd, Bool.false_eq_true, if_false]
    exact ih
  | along hn hl hr h ih =>
    rw [Disk.walk, if_neg hn.notHere, if_neg hn.notUp, hn.fits]
    simp only [hl, Bool.false_eq_true, if_false]
    rw [if_neg]
    · exact ih
    · rcases hr with hr | hr
      · simp [hr]
      · simp [hr]
  | @last links here name hn hl =>
    rw [Disk.walk, if_neg hn.notHere, if_neg hn.notUp, hn.fits]
    simp only [Bool.false_eq_true, if_false, List.isEmpty_nil, if_true, Bool.true_and]
    cases hnode : disk.node? (here ++ [name]) with
    | none => rfl
    | some node =>
      cases node with
      | file number content => rfl
      | directory => simp only [Disk.walk, hnode]
      | device => rfl
      | link target => simp [hl target hnode]

/-- The same ways lead to the same place, unless a link that is followed has come to stand there. -/
theorem Leads.of_keepsWays {other : Disk} (hk : disk.KeepsWays other)
    (h : disk.Leads follow links here names place)
    (hl : follow = true → ∀ target, other.node? place ≠ some (.link target)) :
    other.Leads follow links here names place := by
  induction h with
  | here links here => exact .here links here
  | skip hn h ih => exact .skip hn (ih hl)
  | up h ih => exact .up (ih hl)
  | into hn hd h ih => exact .into hn (hk.directory _ hd) (ih hl)
  | along hn hlink hr h ih => exact .along hn (hk.link _ _ hlink) hr (ih hl)
  | last hn _ =>
    refine .last hn fun target ht => ?_
    cases hf : follow with
    | false => rfl
    | true => exact absurd ht (hl hf target)

theorem Leads.followed (h : disk.Leads false links here names place)
    (hl : ∀ target, disk.node? place ≠ some (.link target)) :
    disk.Leads true links here names place := by
  induction h with
  | here links here => exact .here links here
  | skip hn h ih => exact .skip hn (ih hl)
  | up h ih => exact .up (ih hl)
  | into hn hd h ih => exact .into hn hd (ih hl)
  | along hn hlink hr h ih => exact .along hn hlink (.inr rfl) (ih hl)
  | last hn _ => exact .last hn (fun target ht => absurd ht (hl target))

theorem Leads.exists_unfollowed (h : disk.Leads true links here names place) :
    ∃ other, disk.Leads false links here names other := by
  induction h with
  | here links here => exact ⟨_, .here links here⟩
  | skip hn h ih =>
    obtain ⟨other, ho⟩ := ih
    exact ⟨other, .skip hn ho⟩
  | up h ih =>
    obtain ⟨other, ho⟩ := ih
    exact ⟨other, .up ho⟩
  | into hn hd h ih =>
    obtain ⟨other, ho⟩ := ih
    exact ⟨other, .into hn hd ho⟩
  | @along links here place name target rest hn hl hr h ih =>
    cases rest with
    | nil => exact ⟨_, .last hn (fun _ _ => rfl)⟩
    | cons next rest =>
      obtain ⟨other, ho⟩ := ih
      exact ⟨other, .along hn hl (.inl (List.cons_ne_nil next rest)) ho⟩
  | last hn hl => exact ⟨_, .last hn (fun _ _ => rfl)⟩

/-- All names after the same directories are looked up in one place. -/
theorem Leads.exists_directory {dirs : List String} {name : String}
    (h : disk.Leads follow links here (dirs ++ [name]) place) :
    ∃ above left, disk.Leads follow left above [name] place ∧
      ∀ follow' other target, disk.Leads follow' left above [other] target →
        disk.Leads follow' links here (dirs ++ [other]) target := by
  -- a link puts the names of its target in front, so the directories vary along the way
  generalize hall : dirs ++ [name] = names at h
  induction h generalizing dirs with
  | here links here => simp at hall
  | @skip links here place first rest hn h ih =>
    cases dirs with
    | nil =>
      obtain ⟨rfl, rfl⟩ := List.cons.inj hall
      exact ⟨here, links, .skip hn h, fun _ _ _ ho => ho⟩
    | cons dir dirs =>
      obtain ⟨rfl, hrest⟩ := List.cons.inj hall
      obtain ⟨above, left, hl, hall⟩ := ih hrest
      exact ⟨above, left, hl, fun f o t ho => .skip hn (hall f o t ho)⟩
  | @up links here place rest h ih =>
    cases dirs with
    | nil =>
      obtain ⟨rfl, rfl⟩ := List.cons.inj hall
      exact ⟨here, links, .up h, fun _ _ _ ho => ho⟩
    | cons dir dirs =>
      obtain ⟨rfl, hrest⟩ := List.cons.inj hall
      obtain ⟨above, left, hl, hall⟩ := ih hrest
      exact ⟨above, left, hl, fun f o t ho => .up (hall f o t ho)⟩
  | @into links here place first rest hn hd h ih =>
    cases dirs with
    | nil =>
      obtain ⟨rfl, rfl⟩ := List.cons.inj hall
      exact ⟨here, links, .into hn hd h, fun _ _ _ ho => ho⟩
    | cons dir dirs =>
      obtain ⟨rfl, hrest⟩ := List.cons.inj hall
      obtain ⟨above, left, hl, hall⟩ := ih hrest
      exact ⟨above, left, hl, fun f o t ho => .into hn hd (hall f o t ho)⟩
  | @along links here place first target rest hn hlink hr h ih =>
    cases dirs with
    | nil =>
      obtain ⟨rfl, rfl⟩ := List.cons.inj hall
      exact ⟨here, links + 1, .along hn hlink hr h, fun _ _ _ ho => ho⟩
    | cons dir dirs =>
      obtain ⟨rfl, hrest⟩ := List.cons.inj hall
      have hnames : (Path.names target ++ dirs) ++ [name] = Path.names target ++ rest := by
        rw [List.append_assoc]
        exact congrArg _ hrest
      obtain ⟨above, left, hl, hall⟩ := ih hnames
      refine ⟨above, left, hl, fun f o t ho => ?_⟩
      have hgo := hall f o t ho
      rw [List.append_assoc] at hgo
      exact .along hn hlink (.inl (by simp)) hgo
  | @last links here first hn hl =>
    cases dirs with
    | nil =>
      obtain ⟨rfl, _⟩ := List.cons.inj hall
      exact ⟨here, links, .last hn hl, fun _ _ _ ho => ho⟩
    | cons dir dirs =>
      obtain ⟨_, hrest⟩ := List.cons.inj hall
      simp at hrest

/-! ### Ways that end at a link -/

/-- The way from the root to the place is one of directories. -/
def IsRooted (disk : Disk) (place : Location) : Prop :=
  ∀ above, above <+: place → disk.node? above = some .directory

theorem isRooted_nil (disk : Disk) : disk.IsRooted [] := by
  intro above ha
  rw [List.prefix_nil.mp ha]
  exact node?_nil disk

theorem IsRooted.dropLast (h : disk.IsRooted here) : disk.IsRooted here.dropLast :=
  fun above ha => h above (ha.trans (List.dropLast_prefix here))

theorem IsRooted.concat {name : String} (h : disk.IsRooted here)
    (hd : disk.node? (here ++ [name]) = some .directory) : disk.IsRooted (here ++ [name]) := by
  intro above ha
  rcases List.prefix_concat_iff.mp ha with rfl | ha
  · exact hd
  · exact h above ha

theorem IsRooted.of_keepsWays {other : Disk} (h : disk.IsRooted here) (hk : disk.KeepsWays other) :
    other.IsRooted here := fun above ha => hk.directory above (h above ha)

/-- Where the target of a link starts from. -/
def linkStart (target : String) (here : Location) : Location :=
  if Path.isAbsolute target then [] else here

theorem IsRooted.linkStart (h : disk.IsRooted here) (target : String) :
    disk.IsRooted (linkStart target here) := by
  unfold Disk.linkStart
  split
  · exact isRooted_nil disk
  · exact h

theorem Leads.of_skip {name : String} {rest : List String} (hn : name = "" ∨ name = ".")
    (h : disk.Leads follow links here (name :: rest) place) :
    disk.Leads follow links here rest place := by
  cases h with
  | skip _ h => exact h
  | up _ => exact absurd hn (by decide)
  | into hn' _ _ => exact absurd hn hn'.notHere
  | along hn' _ _ _ => exact absurd hn hn'.notHere
  | last hn' _ => exact absurd hn hn'.notHere

theorem Leads.of_up {rest : List String} (h : disk.Leads follow links here (".." :: rest) place) :
    disk.Leads follow links here.dropLast rest place := by
  cases h with
  | skip hn _ => exact absurd hn (by decide)
  | up h => exact h
  | into hn _ _ => exact absurd rfl hn.notUp
  | along hn _ _ _ => exact absurd rfl hn.notUp
  | last hn _ => exact absurd rfl hn.notUp

theorem Leads.of_isName {name : String} {rest : List String} (hn : IsName name)
    (h : disk.Leads follow links here (name :: rest) place) :
    (disk.node? (here ++ [name]) = some .directory ∧
      disk.Leads follow links (here ++ [name]) rest place) ∨
    (∃ target left, disk.node? (here ++ [name]) = some (.link target) ∧
      disk.Leads follow left (linkStart target here) (Path.names target ++ rest) place) ∨
    (rest = [] ∧ place = here ++ [name] ∧
      ∀ target, disk.node? (here ++ [name]) = some (.link target) → follow = false) := by
  cases h with
  | skip hn' _ => exact absurd hn' hn.notHere
  | up _ => exact absurd rfl hn.notUp
  | into _ hd h => exact .inl ⟨hd, h⟩
  | along _ hl _ h => exact .inr (.inl ⟨_, _, hl, h⟩)
  | last _ hl => exact .inr (.inr ⟨rfl, rfl, hl⟩)

/-- No way goes on behind a file. -/
theorem Leads.not_behind_file (h : disk.Leads true links here names place)
    (hh : disk.IsRooted here) {number : Nat} {content : Bytes}
    (hf : disk.node? place = some (.file number content)) {rest : List String} (hr : rest ≠ [])
    {left : Nat} {other : Location} : ¬ disk.Leads follow left here (names ++ rest) other := by
  -- both ways take the same names; where the first ends at the file, the other has names left
  induction h generalizing left with
  | here links here =>
    rw [hh here (List.prefix_refl here)] at hf
    cases hf
  | skip hn h ih => exact fun ho => ih hh hf (ho.of_skip hn)
  | up h ih => exact fun ho => ih hh.dropLast hf ho.of_up
  | into hn hd h ih =>
    intro ho
    rcases ho.of_isName hn with ⟨_, ho⟩ | ⟨target, _, hl, _⟩ | ⟨hnil, _⟩
    · exact ih (hh.concat hd) hf ho
    · rw [hd] at hl
      cases hl
    · exact hr (List.append_eq_nil_iff.mp hnil).2
  | @along links here place name target more hn hl _ h ih =>
    intro ho
    rcases ho.of_isName hn with ⟨hd, _⟩ | ⟨target', left', hl', ho⟩ | ⟨hnil, _⟩
    · rw [hl] at hd
      cases hd
    · rw [hl] at hl'
      obtain rfl : target = target' := Node.link.inj (Option.some.inj hl')
      have hall : disk.Leads follow left' (linkStart target here)
          (Path.names target ++ more ++ rest) other := by
        rw [List.append_assoc]
        exact ho
      exact ih (hh.linkStart target) hf hall
    · exact hr (List.append_eq_nil_iff.mp hnil).2
  | last hn hl =>
    intro ho
    rcases ho.of_isName hn with ⟨hd, _⟩ | ⟨target, _, hl', _⟩ | ⟨hnil, _⟩
    · rw [hf] at hd
      cases hd
    · rw [hf] at hl'
      cases hl'
    · exact hr hnil

/-- Where a link stands at the end of the way, following it goes where its target leads. -/
theorem Leads.exists_target (h : disk.Leads false links here names place) (hh : disk.IsRooted here)
    {target : String} (hl : disk.node? place = some (.link target)) {left : Nat} {other : Location}
    (ho : disk.Leads true left here names other) :
    disk.IsRooted place.dropLast ∧ ∃ left',
      disk.Leads true left' (linkStart target place.dropLast) (Path.names target) other := by
  induction h generalizing left with
  | here links here =>
    rw [hh here (List.prefix_refl here)] at hl
    cases hl
  | skip hn h ih => exact ih hh hl (ho.of_skip hn)
  | up h ih => exact ih hh.dropLast hl ho.of_up
  | into hn hd h ih =>
    rcases ho.of_isName hn with ⟨_, ho⟩ | ⟨_, _, hl', _⟩ | ⟨rfl, _⟩
    · exact ih (hh.concat hd) hl ho
    · rw [hd] at hl'
      cases hl'
    · cases h
      rw [hd] at hl
      cases hl
  | @along links here place name target' more hn hl' hmore h ih =>
    rcases ho.of_isName hn with ⟨hd, _⟩ | ⟨target'', left', hl'', ho⟩ | ⟨hnil, _, hf⟩
    · rw [hl'] at hd
      cases hd
    · rw [hl'] at hl''
      obtain rfl : target' = target'' := Node.link.inj (Option.some.inj hl'')
      exact ih (hh.linkStart target') hl ho
    · exact absurd (hf target' hl') (by decide)
  | @last links here name hn _ =>
    rw [List.dropLast_concat]
    refine ⟨hh, ?_⟩
    rcases ho.of_isName hn with ⟨hd, _⟩ | ⟨target', left', hl', ho⟩ | ⟨_, _, hf⟩
    · rw [hl] at hd
      cases hd
    · rw [hl] at hl'
      obtain rfl : target = target' := Node.link.inj (Option.some.inj hl')
      rw [List.append_nil] at ho
      exact ⟨left', ho⟩
    · exact absurd (hf target hl) (by decide)

/-- The directories and links of the first tree stand in the second as well, but for one link
whose way nobody goes on from. -/
structure KeepsOtherWays (disk other : Disk) (gone : Location) (target : String) : Prop where
  working : other.working = disk.working
  directory : ∀ place, disk.node? place = some .directory → other.node? place = some .directory
  link : ∀ place target, place ≠ gone → disk.node? place = some (.link target) →
    other.node? place = some (.link target)
  isLink : disk.node? gone = some (.link target)
  blocked : ∀ left rest place, rest ≠ [] →
    ¬ disk.Leads false left (linkStart target gone.dropLast) (Path.names target ++ rest) place

theorem Leads.of_keepsOtherWays {other : Disk} {gone : Location} {target : String}
    (hk : disk.KeepsOtherWays other gone target) (h : disk.Leads false links here names place) :
    other.Leads false links here names place := by
  induction h with
  | here links here => exact .here links here
  | skip hn h ih => exact .skip hn ih
  | up h ih => exact .up ih
  | into hn hd h ih => exact .into hn (hk.directory _ hd) ih
  | @along links here place name target' rest hn hl hr h ih =>
    refine .along hn (hk.link _ _ ?_ hl) hr ih
    rintro rfl
    rw [hk.isLink] at hl
    obtain rfl : target = target' := Node.link.inj (Option.some.inj hl)
    have hrest : rest ≠ [] := by simpa using hr
    have hblocked := hk.blocked links rest place hrest
    rw [List.dropLast_concat] at hblocked
    exact hblocked h
  | last hn _ => exact .last hn (fun _ _ => rfl)

end Countersign.Disk
