import Countersign.Envelope.Output
import Countersign.Proofs.Disk.Joining
import Countersign.Proofs.Intent.DigestText
import Mathlib.Data.List.Basic

/-! The names of envelope files. What stands for the guardian is plain, whoever it is; what stands for
the digest is the start of its text as it is given, so the files are where they belong if that is
plain as well. -/

namespace Countersign.Envelope

/-- Whether a derived name is to hold the character. -/
def isPlain (c : Char) : Bool :=
  ('a' ≤ c ∧ c ≤ 'z') ∨ ('0' ≤ c ∧ c ≤ '9') ∨ c = '_' ∨ c = '-'

theorem isPlain_of_mem_slugLetters {c l : Char} (h : l ∈ slugLetters c) : isPlain l = true := by
  unfold slugLetters at h
  split at h
  · simp only [List.mem_cons, List.not_mem_nil, or_false] at h
    rcases h with rfl | rfl <;> decide
  · split at h
    · obtain rfl := List.mem_singleton.mp h
      decide
    · dsimp only at h
      split at h
      · rename_i hl
        obtain rfl := List.mem_singleton.mp h
        exact decide_eq_true hl
      · obtain rfl := List.mem_singleton.mp h
        decide

theorem isPlain_of_mem_slug {guardianId : Option String} {c : Char} (h : c ∈ slug guardianId) :
    isPlain c = true := by
  unfold slug at h
  split at h
  · obtain ⟨_, _, hl⟩ := List.mem_flatMap.mp h
    exact isPlain_of_mem_slugLetters hl
  · exact List.all_eq_true.mp (by decide) c h

theorem ascii_of_isPlain {c : Char} (h : isPlain c = true) : c.toNat < 128 := by
  rcases of_decide_eq_true h with ⟨_, hz⟩ | ⟨_, h9⟩ | rfl | rfl
  · exact Hex.ascii_of_le hz (by decide)
  · exact Hex.ascii_of_le h9 (by decide)
  · decide
  · decide

theorem isPlain_cases {c : Char} (h : isPlain c = true) :
    slugLetters c = [c] ∧ Text.isBlank c = false ∧ c ≠ '/' ∧ c ≠ '.' := by
  have hascii := ascii_of_isPlain h
  revert h
  apply Hex.of_ascii _ hascii
  decide +kernel

theorem slug_eq {id : String} (h : Text.trim id.toList ≠ []) :
    slug (some id) = (Text.trim id.toList).flatMap slugLetters := by
  have hstated := Text.stated?_eq_some_iff.mpr ⟨Text.trim_ne_nil_iff.mp h, rfl⟩
  simp only [slug, Option.bind_some, hstated, Text.trimmed, String.toList_ofList]

/-- A plain name is its own slug. -/
theorem slug_of_isPlain {id : String} (h : ∀ c ∈ id.toList, isPlain c = true) (hne : id ≠ "") :
    slug (some id) = id.toList := by
  have htrim : Text.trim id.toList = id.toList :=
    Text.trim_of_no_blank fun c hc => (isPlain_cases (h c hc)).2.1
  rw [slug_eq (by simpa [htrim] using hne), htrim,
    List.flatMap_congr fun c hc => (isPlain_cases (h c hc)).1, List.flatMap_singleton']

/-- The characters of a digest's text that go into a name. -/
def leading (digest : String) : List Char :=
  ((Hex.bare (Text.trim digest.toList)).map Char.toLower).take 8

theorem baseName_eq (digest : String) (guardianId : Option String) :
    baseName digest guardianId = String.ofList (leading digest ++ '-' :: slug guardianId) := rfl

/-- The guardian's part of a name leads nowhere. -/
theorem slash_not_mem_baseName {digest : String} (h : '/' ∉ leading digest)
    (guardianId : Option String) : '/' ∉ leading digest ++ '-' :: slug guardianId := by
  rw [List.mem_append, List.mem_cons]
  rintro (hm | hm | hm)
  · exact h hm
  · exact absurd hm (by decide)
  · exact (isPlain_cases (isPlain_of_mem_slug hm)).2.2.1 rfl

theorem isPlain_of_isNamed {d : Digest} {digest : String} (h : d.IsNamed digest) :
    ∀ c ∈ leading digest, isPlain c = true := by
  intro c hc
  rw [leading, Digest.isNamed_iff.mp h] at hc
  have hdigit := Hex.isDigit_of_mem_encode (List.mem_of_mem_take hc)
  have hlower := (Hex.isPlain_of_mem_encode (List.mem_of_mem_take hc)).1
  exact Hex.of_ascii (P := fun c => Hex.isDigit c = true → c.toLower = c → isPlain c = true)
    (by decide +kernel) (Hex.ascii_of_isDigit hdigit) hdigit hlower

/-- The path is that of an entry of the directory with a plain name and that ending. -/
structure IsInside (directory ending path : String) : Prop where
  parent : ∃ above, Path.parent? path = some above ∧ Path.AreSame above directory
  name : ∃ plain : List Char, (∀ c ∈ plain, isPlain c = true) ∧
    Path.fileName? path = some (String.ofList plain ++ ending)

structure Plan.IsInside (plan : Plan) (directory : String) : Prop where
  binary : Envelope.IsInside directory ".cbor" plan.binaryPath
  textual : ∀ path, plan.textualPath = some path → Envelope.IsInside directory ".json" path

section
variable {front : List Char} {ending directory : String}

/-- An ending that makes any front of it the name of a file. -/
structure IsFileEnding (ending : String) : Prop where
  slash : '/' ∉ ending.toList
  long : 2 < ending.toList.length

theorem IsFileEnding.isEnd (he : IsFileEnding ending) (hf : '/' ∉ front) :
    Path.IsEnd (String.ofList front ++ ending).toList := by
  have hlong := he.long
  have hlength : 2 < (String.ofList front ++ ending).toList.length := by
    rw [String.toList_append, List.length_append]
    omega
  refine ⟨?_, fun h => ?_, fun h => ?_⟩
  · simpa using ⟨hf, he.slash⟩
  · simp [h] at hlength
  · simp [h] at hlength

theorem fileName?_joined (he : IsFileEnding ending) (hf : '/' ∉ front) (directory : String) :
    Path.fileName? (Path.join directory (String.ofList front ++ ending)) =
      some (String.ofList front ++ ending) := by
  refine Path.fileName?_join (he.isEnd hf) (fun h => ?_) directory
  have hlong := he.long
  have hlength := congrArg (·.toList.length) h
  simp only [String.toList_append, List.length_append, show "..".toList.length = 2 by decide]
    at hlength
  omega

theorem isInside_joined (he : IsFileEnding ending) (hf : ∀ c ∈ front, isPlain c = true)
    (directory : String) :
    IsInside directory ending (Path.join directory (String.ofList front ++ ending)) := by
  have hslash : '/' ∉ front := fun h => (isPlain_cases (hf '/' h)).2.2.1 rfl
  exact ⟨Path.parent?_join (he.isEnd hslash) directory, front, hf,
    fileName?_joined he hslash directory⟩

theorem isPlain_of_isInside (he : IsFileEnding ending) (hf : '/' ∉ front)
    (h : IsInside directory ending (Path.join directory (String.ofList front ++ ending))) :
    ∀ c ∈ front, isPlain c = true := by
  obtain ⟨plain, hplain, hname⟩ := h.name
  rw [fileName?_joined he hf] at hname
  have hsame : String.ofList front = String.ofList plain := by simpa using Option.some.inj hname
  exact String.ofList_injective hsame ▸ hplain

/-- A path that is only a name is nowhere but in the directory that it is relative to. -/
theorem slash_not_mem_of_isInside (he : IsFileEnding ending)
    (h : IsInside "" ending (String.ofList front ++ ending)) : '/' ∉ front := by
  obtain ⟨above, hp, hs⟩ := h.parent
  have hend : Path.IsEnd ending.toList := by
    simpa using he.isEnd (List.not_mem_nil : '/' ∉ [])
  refine hend.slash_not_mem ?_ hs
  rwa [String.ofList_append, String.ofList_toList]

end

theorem isFileEnding_cbor : IsFileEnding ".cbor" := ⟨by decide, by decide⟩

theorem isFileEnding_json : IsFileEnding ".json" := ⟨by decide, by decide⟩

namespace Naming

variable {n : Naming}

theorem binaryPath_plan (h : n.name.bind Text.stated? = none) :
    n.plan.binaryPath = Path.join n.directory (baseName n.digest n.guardianId ++ ".cbor") := by
  rw [plan, h, Option.getD_none]

theorem textualPath_plan (h : n.name.bind Text.stated? = none) :
    n.plan.textualPath = if n.textual then
      some (Path.join n.directory (baseName n.digest n.guardianId ++ ".json")) else none := by
  rw [plan, h, Option.getD_none]

theorem isInside_plan (h : n.name.bind Text.stated? = none)
    (hd : ∀ c ∈ leading n.digest, isPlain c = true) : n.plan.IsInside n.directory := by
  have hname : ∀ c ∈ leading n.digest ++ '-' :: slug n.guardianId, isPlain c = true := by
    intro c hc
    rcases List.mem_append.mp hc with hc | hc
    · exact hd c hc
    · rcases List.mem_cons.mp hc with rfl | hc
      · decide
      · exact isPlain_of_mem_slug hc
  refine ⟨?_, fun path hp => ?_⟩
  · rw [binaryPath_plan h, baseName_eq]
    exact isInside_joined isFileEnding_cbor hname n.directory
  · rw [textualPath_plan h, baseName_eq] at hp
    split at hp
    · exact Option.some.inj hp ▸ isInside_joined isFileEnding_json hname n.directory
    · exact nomatch hp

theorem isPlain_of_isInside_plan (h : n.name.bind Text.stated? = none)
    (hslash : '/' ∉ leading n.digest) (hp : n.plan.IsInside n.directory) :
    ∀ c ∈ leading n.digest, isPlain c = true := by
  have hbinary := hp.binary
  rw [binaryPath_plan h, baseName_eq] at hbinary
  have hfront := slash_not_mem_baseName hslash n.guardianId
  exact fun c hc => isPlain_of_isInside isFileEnding_cbor hfront hbinary c (List.mem_append_left _ hc)

/-- Files that are named for a digest and a guardian are in the directory under a plain name, whatever
the directory and whoever the guardian, if and only if the digest is given as a text that starts
plainly: so they are if it is that of a digest. A text that starts with a separator leads out of any
directory. -/
theorem files_are_inside_if_the_digest_starts_plainly (h : n.name.bind Text.stated? = none) :
    ((∀ directory, ({ n with directory } : Naming).plan.IsInside directory) ↔
      ∀ c ∈ leading n.digest, isPlain c = true) ∧
    ('/' ∉ leading n.digest →
      (n.plan.IsInside n.directory ↔ ∀ c ∈ leading n.digest, isPlain c = true)) ∧
    ((leading n.digest).head? = some '/' → ∀ directory,
      ({ n with directory } : Naming).plan = n.plan ∧ Path.isAbsolute n.plan.binaryPath = true) ∧
    ∀ d : Digest, d.IsNamed n.digest → n.plan.IsInside n.directory := by
  refine ⟨⟨fun hall => ?_, fun hd directory => ?_⟩, fun hslash => ⟨?_, isInside_plan h⟩,
    fun hhead directory => ?_, fun d hd => isInside_plan h (isPlain_of_isNamed hd)⟩
  · have hbinary := (hall "").binary
    rw [binaryPath_plan (n := { n with directory := "" }) h, Path.join_empty, baseName_eq] at hbinary
    have hslash := slash_not_mem_of_isInside isFileEnding_cbor hbinary
    rw [List.mem_append, not_or] at hslash
    exact isPlain_of_isInside_plan (n := { n with directory := "" }) h hslash.1 (hall "")
  · exact isInside_plan (n := { n with directory }) h hd
  · exact isPlain_of_isInside_plan h hslash
  · have habsolute : ∀ ending : String,
        Path.isAbsolute (baseName n.digest n.guardianId ++ ending) = true := by
      intro ending
      rw [Path.isAbsolute_iff, baseName_eq, String.toList_append, String.toList_ofList,
        List.head?_append, List.head?_append, hhead]
      rfl
    constructor
    · simp only [plan, h, Option.getD_none, Path.join_of_absolute (habsolute _)]
    · rw [binaryPath_plan h, Path.join_of_absolute (habsolute _)]
      exact habsolute _

theorem files_of_ops_team_are_inside :
    let n : Naming := ⟨"/tmp/envelopes", some " ",
      "0xF3AE5FED19CD9E0FCCBDF564A664F370C1FE0255AD0934995819524BFFA212C9", some "../Ops Team#1", true⟩
    n.name.bind Text.stated? = none ∧ n.plan.IsInside "/tmp/envelopes" ∧
      n.plan.binaryPath = "/tmp/envelopes/f3ae5fed----ops-team-1.cbor" := by
  intro n
  have hn : n.name.bind Text.stated? = none := by decide +kernel
  obtain ⟨_, hslash, _, _⟩ := files_are_inside_if_the_digest_starts_plainly hn
  have hplain : (leading n.digest).all isPlain = true := by decide +kernel
  exact ⟨hn, (hslash (by decide +kernel)).mpr (List.all_eq_true.mp hplain), by decide +kernel⟩

/-- An envelope can name another directory as its digest, and its files go there. -/
theorem files_are_led_out :
    let e : Envelope := ⟨2, "../../evil", [1], [2], none⟩
    let n : Naming := ⟨"/tmp/envelopes", none, e.digest, some "alice", true⟩
    Envelope.decodeBinary e.encodeBinary = .ok e ∧
      n.plan = ⟨"/tmp/envelopes/../../ev-alice.cbor", some "/tmp/envelopes/../../ev-alice.json"⟩ ∧
      ¬ n.plan.IsInside n.directory := by
  intro e n
  refine ⟨by decide +kernel, by decide +kernel, fun h => ?_⟩
  obtain ⟨above, hp, hs⟩ := h.binary.parent
  have habove : Path.parent? n.plan.binaryPath = some "/tmp/envelopes/../.." := by decide +kernel
  obtain rfl := Option.some.inj (habove.symm.trans hp)
  exact absurd hs.steps (by decide +kernel)

end Naming
end Countersign.Envelope
