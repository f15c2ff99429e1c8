import Countersign.Json.Record
import Countersign.Proofs.Json.Progress
import Mathlib.Data.List.Nodup

/-! Records from objects whose names are distinct. A field of the record is the entry of its name,
wherever that stands, and entries of other names are passed over. -/

namespace Countersign.Json.Form

variable {form : Form} {whole : Bool} {seen : List Nat} {key : String} {place : Nat}

theorem eq_of_idxOf? {other : String} (h : form.fields.idxOf? key = some place)
    (ho : form.fields.idxOf? other = some place) : key = other := by
  obtain ⟨_, hk, _⟩ := List.idxOf?_eq_some_iff.mp h
  obtain ⟨_, ho, _⟩ := List.idxOf?_eq_some_iff.mp ho
  exact hk.symm.trans ho

theorem named_cons_of_unknown (hopen : form.closed = false) (h : form.fields.idxOf? key = none)
    (j : Json) (rest : List (Bytes × Json)) :
    form.named whole seen ((Text.utf8 key, j) :: rest) = form.named whole seen rest := by
  simp [named, Text.ofUtf8?_utf8, h, hopen]

theorem named_cons_of_new (h : form.fields.idxOf? key = some place) (hn : place ∉ seen) (j : Json)
    (rest : List (Bytes × Json)) :
    form.named whole seen ((Text.utf8 key, j) :: rest) =
      ⟨(place, j) :: (form.named whole (place :: seen) rest).values,
        (form.named whole (place :: seen) rest).whole⟩ := by
  simp [named, Text.ofUtf8?_utf8, h, hn]

/-- What is given by entries of distinct names, none of them a name of the places in `seen`. -/
theorem named_distinct (hopen : form.closed = false) (whole : Bool) (seen : List Nat)
    (fields : List (String × Json)) (hd : (fields.map Prod.fst).Nodup)
    (hs : ∀ e ∈ fields, ∀ place ∈ seen, form.fields.idxOf? e.1 ≠ some place) :
    (form.named whole seen (fields.map fun e => (Text.utf8 e.1, e.2))).whole = whole ∧
    ∀ name place, form.fields.idxOf? name = some place →
      (form.named whole seen (fields.map fun e => (Text.utf8 e.1, e.2))).field? place =
        fields.lookup name := by
  induction fields generalizing seen with
  | nil => exact ⟨rfl, fun _ _ _ => rfl⟩
  | cons e rest ih =>
    obtain ⟨key, j⟩ := e
    obtain ⟨hnot, hd⟩ := List.nodup_cons.mp hd
    rw [List.map_cons]
    cases hk : form.fields.idxOf? key with
    | none =>
      obtain ⟨hw, hf⟩ := ih seen hd fun e he => hs e (List.mem_cons_of_mem _ he)
      rw [named_cons_of_unknown hopen hk]
      refine ⟨hw, fun name place hn => ?_⟩
      have hne : (name == key) = false := by
        apply beq_eq_false_iff_ne.mpr
        rintro rfl
        exact nomatch hk.symm.trans hn
      rw [hf name place hn, List.lookup_cons, hne]
    | some found =>
      have hrest : ∀ e ∈ rest, ∀ place ∈ found :: seen, form.fields.idxOf? e.1 ≠ some place := by
        intro e he place hp hsame
        rcases List.mem_cons.mp hp with rfl | hp
        · exact hnot (List.mem_map.mpr ⟨e, he, eq_of_idxOf? hsame hk⟩)
        · exact hs e (List.mem_cons_of_mem _ he) place hp hsame
      obtain ⟨hw, hf⟩ := ih (found :: seen) hd hrest
      rw [named_cons_of_new hk fun hmem => hs _ List.mem_cons_self found hmem hk]
      refine ⟨hw, fun name place hn => ?_⟩
      by_cases hname : name = key
      · subst hname
        cases hk.symm.trans hn
        simp [Given.field?]
      · have hplace : place ≠ found := by
          rintro rfl
          exact hname (eq_of_idxOf? hn hk)
        have hlookup := hf name place hn
        simp only [Given.field?, List.lookup_cons, beq_eq_false_iff_ne.mpr hplace,
          beq_eq_false_iff_ne.mpr hname] at hlookup ⊢
        exact hlookup

theorem given_distinct (hopen : form.closed = false) {fields : List (String × Json)}
    (hd : (fields.map Prod.fst).Nodup) :
    (form.given (.fields (fields.map fun e => (Text.utf8 e.1, e.2)) true)).whole = true ∧
    ∀ name place, form.fields.idxOf? name = some place →
      (form.given (.fields (fields.map fun e => (Text.utf8 e.1, e.2)) true)).field? place =
        fields.lookup name :=
  named_distinct hopen true [] fields hd fun _ _ _ h => nomatch h

/-! ### Any text -/

theorem whole_of_named {entries : List (Bytes × Json)}
    (h : (form.named whole seen entries).whole = true) : whole = true := by
  induction entries generalizing seen with
  | nil => exact h
  | cons e rest ih =>
    obtain ⟨name, j⟩ := e
    unfold named at h
    split at h
    · exact nomatch h
    · split at h
      · split at h
        · exact nomatch h
        · exact ih h
      · split at h
        · exact nomatch h
        · exact ih h

/-- A record is read from a text that is an object or an array as a whole. -/
theorem exists_container {document : Document} (h : (form.given document).whole = true) :
    ∃ j : Json, j.isContainer = true ∧ document = j.document := by
  cases document with
  | fields entries whole =>
    obtain rfl := whole_of_named h
    exact ⟨object entries, rfl, rfl⟩
  | items items whole =>
    simp only [given, Bool.and_eq_true] at h
    obtain rfl := h.1.1
    exact ⟨array items, rfl, rfl⟩
  | single j whole => exact nomatch h
  | nothing => exact nomatch h

/-- The values that entries hold under a name. -/
def valuesOf (name : String) (entries : List (Bytes × Json)) : List Json :=
  (entries.filter (·.1 = Text.utf8 name)).map (·.2)

theorem valuesOf_cons_self (name : String) (j : Json) (rest : List (Bytes × Json)) :
    valuesOf name ((Text.utf8 name, j) :: rest) = j :: valuesOf name rest := by
  simp [valuesOf]

theorem valuesOf_cons_of_ne {name : String} {bytes : Bytes} (h : bytes ≠ Text.utf8 name) (j : Json)
    (rest : List (Bytes × Json)) : valuesOf name ((bytes, j) :: rest) = valuesOf name rest := by
  simp [valuesOf, h]

/-- Where entries are taken without a fault, the field at a place is the one value under its name,
and a name of a place that was given before is not among them. -/
theorem valuesOf_of_named {entries : List (Bytes × Json)}
    (h : (form.named whole seen entries).whole = true) (hp : form.fields.idxOf? key = some place) :
    valuesOf key entries =
      if place ∈ seen then [] else ((form.named whole seen entries).field? place).toList := by
  induction entries generalizing seen with
  | nil => simp [valuesOf, named, Given.field?]
  | cons e rest ih =>
    obtain ⟨bytes, j⟩ := e
    rw [named] at h ⊢
    cases hb : Text.ofUtf8? bytes with
    | none =>
      rw [hb] at h
      exact nomatch h
    | some name =>
      obtain rfl := Text.utf8_of_ofUtf8? hb
      rw [hb] at h
      dsimp only at h ⊢
      cases hname : form.fields.idxOf? name with
      | none =>
        have hne : Text.utf8 name ≠ Text.utf8 key := by
          intro heq
          rw [Text.utf8_injective heq] at hname
          exact nomatch hname.symm.trans hp
        rw [hname] at h
        dsimp only at h ⊢
        split_ifs at h with hclosed
        rw [valuesOf_cons_of_ne hne, ih h, if_neg hclosed]
      | some found =>
        rw [hname] at h
        dsimp only at h ⊢
        split_ifs at h with hfound
        rw [if_neg hfound]
        have hrest := ih h
        by_cases hkey : name = key
        · subst hkey
          cases hname.symm.trans hp
          rw [if_pos List.mem_cons_self] at hrest
          rw [valuesOf_cons_self, hrest, if_neg hfound]
          simp [Given.field?]
        · have hne : Text.utf8 name ≠ Text.utf8 key := fun heq => hkey (Text.utf8_injective heq)
          have hplace : place ≠ found := by
            rintro rfl
            exact hkey (eq_of_idxOf? hname hp)
          rw [valuesOf_cons_of_ne hne, hrest]
          simp [hplace, Given.field?, List.lookup_cons, beq_eq_false_iff_ne.mpr hplace]

/-! ### Arrays -/

/-- The object in which the items have the names of the fields, in their order. -/
def entries (form : Form) (items : List Json) : List (Bytes × Json) :=
  (form.fields.zip items).map fun e => (Text.utf8 e.1, e.2)

theorem names_zip_sublist (names : List String) (items : List Json) :
    ((names.zip items).map Prod.fst).Sublist names := by
  induction names generalizing items with
  | nil => simp
  | cons name names ih =>
    cases items with
    | nil => simp
    | cons j items => simpa using ih items

theorem lookup_zip {names : List String} {items : List Json} (h : names.idxOf? key = some place) :
    (names.zip items).lookup key = items[place]? := by
  induction names generalizing items place with
  | nil => exact nomatch h
  | cons name names ih =>
    cases items with
    | nil => simp
    | cons j items =>
      rw [List.zip_cons_cons, List.lookup_cons]
      rw [List.idxOf?_cons] at h
      by_cases hname : key = name
      · subst hname
        simp only [beq_self_eq_true, if_true, Option.some.injEq] at h
        subst h
        simp
      · have hne : (name == key) = false := beq_eq_false_iff_ne.mpr (Ne.symm hname)
        rw [hne] at h
        obtain ⟨before, hbefore, rfl⟩ := Option.map_eq_some_iff.mp h
        have hkey : (key == name) = false := beq_eq_false_iff_ne.mpr hname
        rw [hkey, List.getElem?_cons_succ]
        exact ih hbefore

theorem lookup_zipIdx (items : List Json) (start place : Nat) :
    ((items.zipIdx start).map fun (j, place) => (place, j)).lookup (start + place) =
      items[place]? := by
  induction items generalizing start place with
  | nil => simp
  | cons j rest ih =>
    rw [List.zipIdx_cons, List.map_cons, List.lookup_cons]
    cases place with
    | zero => simp
    | succ place =>
      have hne : (start + (place + 1) == start) = false := by simp
      have hrest := ih (start + 1) place
      rw [hne, List.getElem?_cons_succ, ← hrest, Nat.add_right_comm, Nat.add_assoc]

theorem length_of_whole {items : List Json} (h : (form.given (.items items true)).whole = true) :
    form.needed ≤ items.length ∧ items.length ≤ form.fields.length := by
  simp only [given, Bool.and_eq_true, decide_eq_true_eq] at h
  exact ⟨h.1.2, h.2⟩

/-- An array of the right length gives what the object gives in which its items have names. -/
theorem given_items (hopen : form.closed = false) (hd : form.fields.Nodup) {items : List Json}
    (hmin : form.needed ≤ items.length) (hmax : items.length ≤ form.fields.length) :
    (form.given (.items items true)).whole = true ∧
    (form.given (.fields (form.entries items) true)).whole = true ∧
    ∀ name place, form.fields.idxOf? name = some place →
      (form.given (.items items true)).field? place =
        (form.given (.fields (form.entries items) true)).field? place := by
  have hkeys : ((form.fields.zip items).map Prod.fst).Nodup :=
    hd.sublist (names_zip_sublist form.fields items)
  obtain ⟨hwhole, hfield⟩ := given_distinct hopen hkeys
  refine ⟨by simp [given, hmin, hmax], hwhole, fun name place hp => ?_⟩
  have hlookup := lookup_zipIdx items 0 place
  rw [Nat.zero_add] at hlookup
  rw [entries, hfield name place hp, lookup_zip hp, Given.field?, given,
    List.take_of_length_le hmax]
  exact hlookup

end Countersign.Json.Form
