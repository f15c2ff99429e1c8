import Countersign.Proofs.Disk.Shelf
import Countersign.Proofs.Envelope.Formats
import Countersign.Proofs.Envelope.Textual

/-! What an inbox holds: the envelope of each regular file that is one, in whatever company the file
is found. -/

namespace Countersign.Envelope

/-- What an envelope is written as in the format. -/
def Format.encode : Format → Envelope → Bytes
  | cbor => encodeBinary
  | json => encodeTextual

variable {e : Envelope} {format : Format} {content : Bytes}

/-- In its textual form an envelope can always be read; only lengths of CBOR are bounded. -/
theorem Format.decode_encode (h : format = .cbor → e.IsStorable) :
    format.decode (format.encode e) = .ok e := by
  cases format with
  | cbor => exact decodeBinary_encodeBinary (h rfl)
  | json => exact decodeTextual_encodeTextual e

theorem ofNode_of_decode (h : format.decode content = .ok e) (number : Nat) :
    ofNode (.file number content) = .ok (e, format) := by
  have hfirst : firstOf? [.cbor, .json] content = some (e, format) := by
    cases format with
    | cbor =>
      have hb : decodeBinary content = .ok e := h
      simp only [firstOf?, List.findSome?, Format.decode, hb]
      rfl
    | json =>
      have ht : decodeTextual content = .ok e := h
      cases hb : decodeBinary content with
      | ok other => exact absurd ⟨other, e, hb, ht⟩ (not_both content)
      | error _ =>
        simp only [firstOf?, List.findSome?, Format.decode, hb, ht]
        rfl
  rw [← toOption_ofNode number] at hfirst
  exact toOption_eq_some_iff.mp hfirst

namespace Inbox

theorem ofEntries_append (before after : List (String × Node)) :
    ofEntries (before ++ after) =
      ⟨(ofEntries before).envelopes ++ (ofEntries after).envelopes,
        (ofEntries before).reports ++ (ofEntries after).reports⟩ := by
  induction before with
  | nil => rfl
  | cons entry rest ih =>
    obtain ⟨path, node⟩ := entry
    show add path node (ofEntries (rest ++ after)) = _
    have hcons : ofEntries ((path, node) :: rest) = add path node (ofEntries rest) := rfl
    rw [ih, hcons]
    unfold add
    cases ofNode node <;> rfl

theorem ofEntries_parsed {node : Node} (h : ofNode node = .ok (e, format)) (path : String)
    (before after : List (String × Node)) :
    ofEntries (before ++ (path, node) :: after) =
      ⟨(ofEntries before).envelopes ++ e :: (ofEntries after).envelopes,
        (ofEntries before).reports ++ ⟨path, .parsed format⟩ :: (ofEntries after).reports⟩ := by
  have hcons : ofEntries ((path, node) :: after) = add path node (ofEntries after) := rfl
  rw [ofEntries_append, hcons, add, h]

/-- What is skipped leaves a report and nothing else. -/
theorem ofEntries_skipped {node : Node} {reason : SkipReason} (h : ofNode node = .error reason)
    (path : String) (before after : List (String × Node)) :
    ofEntries (before ++ (path, node) :: after) =
      ⟨(ofEntries (before ++ after)).envelopes,
        (ofEntries before).reports ++ ⟨path, .skipped reason⟩ :: (ofEntries after).reports⟩ := by
  have hcons : ofEntries ((path, node) :: after) = add path node (ofEntries after) := rfl
  rw [ofEntries_append, ofEntries_append, hcons, add, h]

/-- The entries of a directory in the order in which they are looked at. -/
def listed? (disk : Disk) (directory : String) : Option (List (String × Node)) := do
  let names ← disk.list? directory
  let (place, _) ← (disk.resolve true directory).toOption
  return (names.mergeSort (fun a b => a ≤ b)).filterMap fun name =>
    (disk.node? (place ++ [name])).map fun node => (Path.join directory name, node)

theorem load?_eq (disk : Disk) (directory : String) :
    load? disk directory = (listed? disk directory).map ofEntries := by
  unfold load? listed?
  cases disk.list? directory with
  | none => rfl
  | some names => cases (disk.resolve true directory).toOption <;> rfl

variable {disk : Disk} {directory name : String} {place : Location} {node : Node}

/-- Where a path leads to a directory, it can be listed. -/
theorem exists_load? (hd : disk.at? true directory = some .directory) :
    ∃ inbox, load? disk directory = some inbox := by
  obtain ⟨place, hl, hn⟩ := Disk.exists_of_at? hd
  have hplace : disk.resolve true directory = .ok (place, some .directory) := by rw [hl.resolve, hn]
  simp [load?, Disk.list?, hplace, Except.toOption]

theorem mem_list?_of_node? (hd : disk.resolve true directory = .ok (place, some .directory))
    (hn : disk.node? (place ++ [name]) = some node) :
    ∃ names, disk.list? directory = some names ∧ name ∈ names := by
  have hlookup : disk.nodes.lookup (place ++ [name]) = some node := by
    simpa [Disk.node?] using hn
  obtain ⟨front, back, hnodes, _⟩ := List.lookup_eq_some_iff.mp hlookup
  have hm : (place ++ [name], node) ∈ disk.nodes := by simp [hnodes]
  exact ⟨_, by rw [Disk.list?, hd], List.mem_filterMap.mpr ⟨_, hm, by simp⟩⟩

/-- As long as their paths are within the limit, to look at the entries where they stand is to
follow the paths that are reported for them. -/
theorem load?_eq_of_paths (hd : disk.resolve true directory = .ok (place, some .directory))
    {names : List String} (hlist : disk.list? directory = some names)
    (hall : ∀ name ∈ names, Disk.IsName name ∧ '/' ∉ name.toList ∧
      Disk.isBadPath (Path.join directory name) = false) :
    load? disk directory = some (ofEntries ((names.mergeSort (fun a b => a ≤ b)).filterMap fun name =>
      (disk.at? false (Path.join directory name)).map fun node =>
        (Path.join directory name, node))) := by
  obtain ⟨hl, hplace⟩ := Disk.resolve_eq_ok_iff.mp hd
  have hentry : ∀ name ∈ names.mergeSort (fun a b => a ≤ b),
      disk.node? (place ++ [name]) = disk.at? false (Path.join directory name) := by
    intro name hm
    obtain ⟨hname, hslash, hbad⟩ := hall name (List.mem_mergeSort.mp hm)
    exact (hl.join hplace.symm hslash hname hbad).at?.symm
  have hsame := List.filterMap_congr fun name hm =>
    congrArg (Option.map fun node => (Path.join directory name, node)) (hentry name hm)
  simp only [load?, hlist, hd, Except.toOption, Option.bind_eq_bind, Option.bind_some, hsame]
  rfl

theorem exists_listed? (hd : disk.resolve true directory = .ok (place, some .directory))
    (hn : disk.node? (place ++ [name]) = some node) :
    ∃ before after,
      listed? disk directory = some (before ++ (Path.join directory name, node) :: after) := by
  obtain ⟨names, hlist, hname⟩ := mem_list?_of_node? hd hn
  have hplace : (disk.resolve true directory).toOption = some (place, some .directory) := by
    rw [hd]
    rfl
  have hmem : (Path.join directory name, node) ∈
      (names.mergeSort (fun a b => a ≤ b)).filterMap fun name =>
        (disk.node? (place ++ [name])).map fun node => (Path.join directory name, node) :=
    List.mem_filterMap.mpr ⟨name, List.mem_mergeSort.mpr hname, by rw [hn]; rfl⟩
  obtain ⟨before, after, hsplit⟩ := List.append_of_mem hmem
  refine ⟨before, after, ?_⟩
  simp only [listed?, hlist, hplace, Option.bind_eq_bind, Option.bind_some, hsplit]
  rfl

/-- A regular file in the directory that can be read as an envelope is among those found. -/
theorem exists_load?_mem (hd : disk.resolve true directory = .ok (place, some .directory))
    {number : Nat} (hn : disk.node? (place ++ [name]) = some (.file number content))
    (h : format.decode content = .ok e) :
    ∃ inbox, load? disk directory = some inbox ∧ e ∈ inbox.envelopes := by
  obtain ⟨before, after, hlisted⟩ := exists_listed? hd hn
  refine ⟨_, by rw [load?_eq, hlisted]; rfl, ?_⟩
  rw [ofEntries_parsed (ofNode_of_decode h number)]
  simp

end Inbox
end Countersign.Envelope
