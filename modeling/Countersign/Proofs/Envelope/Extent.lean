import Countersign.Proofs.Disk.Paths
import Countersign.Proofs.Envelope.Inbox
import Countersign.Proofs.Json.Continuation

/-! How far an envelope reaches. What breaks off before the end of an envelope is none in either
format. Behind the textual form nothing but blanks may follow; behind the binary form anything may,
and is dropped. -/

namespace Countersign.Envelope

/-- Content that is no envelope in any format: a file with it leaves a report in an inbox, and the
envelopes are those of the other entries. -/
structure IsSkipped (content : Bytes) : Prop where
  refused : ∀ format : Format, ∃ fault, format.decode content = .error fault
  reported : ∀ (disk : Disk) directory place name number,
    disk.resolve true directory = .ok (place, some .directory) →
    disk.node? (place ++ [name]) = some (.file number content) →
    ∃ before after reason,
      Inbox.listed? disk directory =
        some (before ++ (Path.join directory name, .file number content) :: after) ∧
      Inbox.load? disk directory = some ⟨(Inbox.ofEntries (before ++ after)).envelopes,
        (Inbox.ofEntries before).reports ++
          ⟨Path.join directory name, .skipped reason⟩ :: (Inbox.ofEntries after).reports⟩

/-- Content that is an envelope in the format, which a file with it adds to an inbox. -/
structure IsParsed (format : Format) (content : Bytes) (e : Envelope) : Prop where
  decoded : format.decode content = .ok e
  reported : ∀ (disk : Disk) directory place name number,
    disk.resolve true directory = .ok (place, some .directory) →
    disk.node? (place ++ [name]) = some (.file number content) →
    ∃ before after,
      Inbox.listed? disk directory =
        some (before ++ (Path.join directory name, .file number content) :: after) ∧
      Inbox.load? disk directory =
        some ⟨(Inbox.ofEntries before).envelopes ++ e :: (Inbox.ofEntries after).envelopes,
          (Inbox.ofEntries before).reports ++
            ⟨Path.join directory name, .parsed format⟩ :: (Inbox.ofEntries after).reports⟩

variable {e : Envelope} {format : Format} {content : Bytes}

theorem exists_reason (h : ∀ format : Format, ∃ fault, format.decode content = .error fault)
    (number : Nat) : ∃ reason, ofNode (.file number content) = .error reason := by
  obtain ⟨_, hb⟩ := h .cbor
  obtain ⟨_, ht⟩ := h .json
  have hnone : (ofNode (.file number content)).toOption = none := by
    rw [toOption_ofNode]
    simp only [firstOf?, List.findSome?, hb, ht]
    rfl
  cases ho : ofNode (.file number content) with
  | error reason => exact ⟨reason, rfl⟩
  | ok found =>
    rw [ho] at hnone
    cases hnone

theorem isSkipped_of_refused
    (h : ∀ format : Format, ∃ fault, format.decode content = .error fault) :
    IsSkipped content where
  refused := h
  reported disk directory place name number hd hn := by
    obtain ⟨reason, hreason⟩ := exists_reason h number
    obtain ⟨before, after, hlisted⟩ := Inbox.exists_listed? hd hn
    refine ⟨before, after, reason, hlisted, ?_⟩
    rw [Inbox.load?_eq, hlisted, Option.map_some, Inbox.ofEntries_skipped hreason]

theorem isParsed_of_decode (h : format.decode content = .ok e) : IsParsed format content e where
  decoded := h
  reported disk directory place name number hd hn := by
    obtain ⟨before, after, hlisted⟩ := Inbox.exists_listed? hd hn
    refine ⟨before, after, hlisted, ?_⟩
    have hnode := ofNode_of_decode h number
    rw [Inbox.load?_eq, hlisted, Option.map_some, Inbox.ofEntries_parsed hnode]

/-! ### Breaking off -/

theorem read?_front_of_encodeBinary (h : e.IsStorable) {front : Bytes}
    (hf : front <+: e.encodeBinary) (hne : front ≠ e.encodeBinary) : Cbor.read? front = none :=
  (Cbor.spells_encode (fits_toCbor h)).read?_front hf hne

theorem read?_front_of_encodeTextual {front : Bytes} (hf : front <+: e.encodeTextual)
    (hne : front ≠ e.encodeTextual) : Json.read? front = none := by
  have hobject : e.toJson.isContainer = true := by
    rw [toJson_eq]
    rfl
  exact (Json.spells_pretty 0 e.toJson e.isPlain_toJson).read?_front hobject hf hne

theorem Format.decode_front (h : format = .cbor → e.IsStorable) {front : Bytes}
    (hf : front <+: format.encode e) (hne : front ≠ format.encode e) :
    ∃ fault, format.decode front = .error fault := by
  apply exists_error_of_ne_ok
  intro f ho
  cases format with
  | cbor =>
    have hnone := read?_front_of_encodeBinary (h rfl) hf hne
    rw [Format.decode, decodeBinary, hnone] at ho
    cases ho
  | json =>
    obtain ⟨j, _, hj⟩ := exists_read?_of_decodeTextual ho
    rw [read?_front_of_encodeTextual hf hne] at hj
    cases hj

/-- What is left of an envelope that breaks off is no envelope, in whatever format it was written
and is read. -/
theorem broken_off_envelope_is_skipped (h : format = .cbor → e.IsStorable) {front : Bytes}
    (hf : front <+: format.encode e) (hne : front ≠ format.encode e) : IsSkipped front := by
  apply isSkipped_of_refused
  intro other
  by_cases hsame : other = format
  · subst hsame
    exact Format.decode_front h hf hne
  · cases front with
    | nil => exact other.decode_nil
    | cons b more =>
      -- the two formats differ in the first byte, which is that of the whole envelope
      obtain ⟨back, hback⟩ := hf
      have hwhole := Format.decode_encode h
      rw [← hback, List.cons_append] at hwhole
      exact exists_error_of_ne_ok fun f ho => hsame (Format.eq_of_first ho hwhole)

/-- Braces and quotation marks in a text do not close anything. -/
theorem envelope_without_its_end_is_skipped :
    let e : Envelope := ⟨2, "\x7d\"é", [], [0], some { note := some "\x7b\"\x7d" }⟩
    e.IsStorable ∧ ∀ format : Format, IsSkipped (format.encode e).dropLast := by
  intro e
  have hnote : (Text.utf8 "\x7b\"\x7d").length < 2 ^ 64 := by decide
  have hs : e.IsStorable :=
    ⟨by decide, by decide, by decide, by simpa [e, Metadata.texts] using hnote⟩
  refine ⟨hs, fun format => ?_⟩
  refine broken_off_envelope_is_skipped (fun _ => hs) (List.dropLast_prefix _) ?_
  cases format <;> decide +kernel

/-! ### Going on -/

theorem decodeBinary_append (h : decodeBinary content = .ok e) (more : Bytes) :
    decodeBinary (content ++ more) = .ok e := by
  obtain ⟨entries, hread, he⟩ := decodeBinary_eq_ok_iff.mp h
  exact decodeBinary_eq_ok_iff.mpr ⟨entries, Cbor.read?_append hread more, he⟩

theorem decodeTextual_append_of_blank (h : decodeTextual content = .ok e) {more : Bytes}
    (hm : Json.IsBlank more) : decodeTextual (content ++ more) = .ok e := by
  obtain ⟨j, hj, hread⟩ := exists_read?_of_decodeTextual h
  have hnumeral := Json.isNumeral_of_isContainer hj
  have hmore := (Json.read?_append_eq_some_iff hread hnumeral).mpr ⟨hm, rfl⟩
  rw [← decodeTextual_congr hj hread hmore, h]

theorem refused_append (h : decodeTextual content = .ok e) {more : Bytes}
    (hm : ¬ Json.IsBlank more) (format : Format) :
    ∃ fault, format.decode (content ++ more) = .error fault := by
  apply exists_error_of_ne_ok
  intro f ho
  -- the first byte leaves nothing but the textual form, and the text would have to go on in blanks
  obtain ⟨b, rest, rfl, _⟩ := first_of_decodeTextual h
  obtain rfl : format = .json := Format.eq_of_first ho (show Format.json.decode _ = _ from h)
  obtain ⟨j, hj, hread⟩ := exists_read?_of_decodeTextual h
  obtain ⟨k, _, hmore⟩ := exists_read?_of_decodeTextual ho
  exact hm ((Json.read?_append_eq_some_iff hread (Json.isNumeral_of_isContainer hj)).mp hmore).1

theorem exists_own (h : decodeBinary content = .ok e) :
    ∃ own, own <+: content ∧ decodeBinary own = .ok e ∧
      ∀ front, front <+: own → front ≠ own → ∃ fault, decodeBinary front = .error fault := by
  obtain ⟨entries, hread, he⟩ := decodeBinary_eq_ok_iff.mp h
  obtain ⟨own, rest, rfl, hown⟩ := Cbor.read?_eq_some_iff.mp hread
  have hread : Cbor.read? own = some (.map entries) :=
    Cbor.read?_eq_some_iff.mpr ⟨own, [], (List.append_nil own).symm, hown⟩
  refine ⟨own, List.prefix_append own rest, decodeBinary_eq_ok_iff.mpr ⟨entries, hread, he⟩, ?_⟩
  intro front hf hne
  exact ⟨.notCbor, by rw [decodeBinary, hown.read?_front hf hne]⟩

theorem IsParsed.not_isSkipped (h : IsParsed format content e) : ¬ IsSkipped content := by
  intro hs
  obtain ⟨_, hrefused⟩ := hs.refused format
  exact nomatch h.decoded.symm.trans hrefused

theorem isParsed_append (h : format.decode content = .ok e) {more : Bytes}
    (hm : format = .cbor ∨ Json.IsBlank more) : IsParsed format (content ++ more) e := by
  apply isParsed_of_decode
  cases format with
  | cbor => exact decodeBinary_append h more
  | json => exact decodeTextual_append_of_blank h (hm.resolve_left nofun)

/-- Of what is read in the binary form, the bytes behind those that are needed do not matter:
whatever they are, they are dropped, and the file is reported as parsed. A file in the textual form
is skipped if what follows is not blank. -/
theorem what_follows_is_dropped_or_refused (h : format.decode content = .ok e) (more : Bytes) :
    (IsSkipped (content ++ more) ↔ format = .json ∧ ¬ Json.IsBlank more) ∧
    (IsParsed format (content ++ more) e ↔ format = .cbor ∨ Json.IsBlank more) ∧
    (format = .cbor → ∃ own, own <+: content ∧ decodeBinary own = .ok e ∧
      ∀ front, front <+: own → front ≠ own → ∃ fault, decodeBinary front = .error fault) := by
  have hskipped : format = .json → ¬ Json.IsBlank more → IsSkipped (content ++ more) := by
    rintro rfl hm
    exact isSkipped_of_refused (refused_append h hm)
  have hother : ¬ (format = .cbor ∨ Json.IsBlank more) ↔ format = .json ∧ ¬ Json.IsBlank more := by
    cases format <;> simp
  refine ⟨⟨fun hs => ?_, fun hm => hskipped hm.1 hm.2⟩, ⟨fun hp => ?_, isParsed_append h⟩, ?_⟩
  · exact hother.mp fun hm => (isParsed_append h hm).not_isSkipped hs
  · by_contra hm
    obtain ⟨hjson, hblank⟩ := hother.mp hm
    exact hp.not_isSkipped (hskipped hjson hblank)
  · rintro rfl
    exact exists_own h

theorem stray_byte_is_dropped_or_refused :
    let e : Envelope := ⟨2, "0x01", [1], [2], none⟩
    decodeBinary e.encodeBinary = .ok e ∧ decodeTextual e.encodeTextual = .ok e ∧
    IsParsed .cbor (e.encodeBinary ++ [0xff]) e ∧ IsParsed .json (e.encodeTextual ++ [0x0a]) e ∧
    IsSkipped (e.encodeTextual ++ [0x7d]) := by
  intro e
  have hs : e.IsStorable := ⟨by decide, by decide, by decide, by simp [e]⟩
  have hb : Format.cbor.decode e.encodeBinary = .ok e := decodeBinary_encodeBinary hs
  have ht : Format.json.decode e.encodeTextual = .ok e := decodeTextual_encodeTextual e
  have hblank : Json.IsBlank [0x0a] := by simp [Json.IsBlank, Json.isSpace]
  have hbrace : ¬ Json.IsBlank [0x7d] := by simp [Json.IsBlank, Json.isSpace]
  obtain ⟨_, hbinary, _⟩ := what_follows_is_dropped_or_refused hb [0xff]
  obtain ⟨_, htextual, _⟩ := what_follows_is_dropped_or_refused ht [0x0a]
  obtain ⟨hrefused, _⟩ := what_follows_is_dropped_or_refused ht [0x7d]
  exact ⟨hb, ht, hbinary.mpr (.inl rfl), htextual.mpr (.inr hblank), hrefused.mpr ⟨rfl, hbrace⟩⟩

/-- A directory with nothing but one file in it. -/
def oneFile (content : Bytes) : Disk where
  nodes := [(["e"], .directory), (["e", "a"], .file 0 content)]
  made := 1

theorem load?_oneFile (content : Bytes) :
    Inbox.load? (oneFile content) "e" = some (Inbox.ofEntries [("e/a", .file 0 content)]) := by
  have hresolve : (oneFile content).resolve true "e" = .ok (["e"], some .directory) :=
    Disk.IsSingle.resolve (by decide +kernel) rfl (by simp)
  have hnode : (oneFile content).node? ["e", "a"] = some (.file 0 content) := rfl
  have hlist : (oneFile content).list? "e" = some ["a"] := by
    rw [Disk.list?, hresolve]
    rfl
  have hjoin : Path.join "e" "a" = "e/a" := by decide +kernel
  rw [Inbox.load?_eq]
  simp [Inbox.listed?, hlist, hresolve, hnode, hjoin, Except.toOption]

/-- Two envelopes in one file: the second is lost, and no report says so. -/
theorem second_envelope_is_dropped :
    let first : Envelope := ⟨2, "0x01", [1], [2], none⟩
    let second : Envelope := ⟨2, "0x02", [3], [4], none⟩
    decodeBinary first.encodeBinary = .ok first ∧ decodeBinary second.encodeBinary = .ok second ∧
    (∀ front, front <+: first.encodeBinary → front ≠ first.encodeBinary →
      ∃ fault, decodeBinary front = .error fault) ∧ second.encodeBinary ≠ [] ∧
    Inbox.load? (oneFile (first.encodeBinary ++ second.encodeBinary)) "e" =
      some ⟨[first], [⟨"e/a", .parsed .cbor⟩]⟩ := by
  intro first second
  have hs : first.IsStorable := ⟨by decide, by decide, by decide, by simp [first]⟩
  have hfirst := decodeBinary_encodeBinary hs
  have hsecond : decodeBinary second.encodeBinary = .ok second :=
    decodeBinary_encodeBinary ⟨by decide, by decide, by decide, by simp [second]⟩
  have hfront : ∀ front, front <+: first.encodeBinary → front ≠ first.encodeBinary →
      ∃ fault, decodeBinary front = .error fault :=
    fun front hf hne => Format.decode_front (show Format.cbor = .cbor → _ from fun _ => hs) hf hne
  refine ⟨hfirst, hsecond, hfront, by decide +kernel, ?_⟩
  have hboth : Format.cbor.decode (first.encodeBinary ++ second.encodeBinary) = .ok first :=
    decodeBinary_append hfirst _
  rw [load?_oneFile]
  exact congrArg some (Inbox.ofEntries_parsed (ofNode_of_decode hboth 0) "e/a" [] [])

end Countersign.Envelope
