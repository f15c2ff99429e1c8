import Countersign.Proofs.Bytes.Base64
import Countersign.Proofs.Text.Utf8
import Countersign.Setup.Roster

/-! The notations of keys. Where nothing says how a key is written, digits behind a prefix give the
key, and so does base64 unless it looks like such digits; and that is alike wherever a key is given
as text. -/

namespace Countersign

namespace KeyEncoding

theorem toOption_decodeHex (name : String) (text : List Char) :
    (decodeHex name text).toOption = Hex.decode? (Hex.bare text) := by
  cases hd : Hex.decode? (Hex.bare text) with
  | some bytes =>
    obtain ⟨heven, hall⟩ := Hex.isSome_decode?_iff.mp ⟨bytes, hd⟩
    have hsize : (String.ofList (Hex.bare text)).utf8ByteSize = (Hex.bare text).length :=
      Text.length_utf8_of_ascii fun c hc => Hex.ascii_of_isDigit (List.all_eq_true.mp hall c hc)
    simp only [decodeHex, hsize, heven, hd, ne_eq, not_true_eq_false, if_false, Except.toOption]
  | none =>
    simp only [decodeHex, hd]
    split
    · rfl
    · split <;> first | rfl | contradiction

/-- The bytes that a text gives by its looks: of the digits behind a prefix, or else in base64. -/
def guess? (text : List Char) : Option Bytes :=
  match Hex.unprefixed? text with
  | some digits => Hex.decode? digits
  | none => Base64.decode? text

theorem toOption_decode_auto (name : String) {s : String} (h : Text.trim s.toList ≠ []) :
    (auto.decode name s).toOption = guess? (Text.trim s.toList) := by
  have hstated : (Text.trim s.toList).isEmpty = false := by simpa using h
  cases hp : Hex.unprefixed? (Text.trim s.toList) with
  | some digits =>
    have hdigits : (decodeHex name (Text.trim s.toList)).toOption = Hex.decode? digits := by
      rw [toOption_decodeHex, Hex.bare, hp, Option.getD_some]
    simp only [decode, hstated, usesHex, guess?, hp, Bool.false_eq_true, if_false,
      Option.isSome_some, if_true, hdigits]
  | none =>
    simp only [decode, hstated, usesHex, guess?, hp, Bool.false_eq_true, if_false,
      Option.isSome_none]
    cases Base64.decode? (Text.trim s.toList) <;> rfl

theorem guess?_of_prefixed {s digits : List Char} {bytes : Bytes}
    (hs : s = '0' :: 'x' :: digits ∨ s = '0' :: 'X' :: digits)
    (h : digits.map Char.toLower = Hex.encode bytes) : guess? s = some bytes := by
  rw [guess?, Hex.unprefixed?_eq_some_iff.mpr hs]
  exact Hex.decode?_eq_some_iff.mpr h

theorem guess?_encode (bytes : Bytes) : guess? (Base64.encode bytes) =
    if Base64.looksPrefixed bytes then Hex.decode? ((Base64.encode bytes).drop 2)
    else some bytes := by
  rw [guess?]
  cases hp : Hex.unprefixed? (Base64.encode bytes) with
  | some digits =>
    have hlooks := Base64.exists_unprefixed?_encode_iff.mp ⟨digits, hp⟩
    have hdrop : (Base64.encode bytes).drop 2 = digits := by
      rcases Hex.unprefixed?_eq_some_iff.mp hp with h | h <;> rw [h] <;> rfl
    rw [if_pos hlooks, hdrop]
  | none =>
    have hlooks : ¬ Base64.looksPrefixed bytes = true := fun h => by
      obtain ⟨digits, hd⟩ := Base64.exists_unprefixed?_encode_iff.mpr h
      rw [hp] at hd
      exact nomatch hd
    rw [if_neg hlooks]
    exact Base64.decode?_encode bytes

/-- The digits that a base64 text looks like are too few for the bytes of the text. -/
theorem decode?_drop_encode_ne {bytes : Bytes} (h : Base64.looksPrefixed bytes = true) :
    Hex.decode? ((Base64.encode bytes).drop 2) ≠ some bytes := by
  intro hd
  have hlength := Hex.length_of_decode? hd
  rw [List.length_drop, Base64.length_encode] at hlength
  match bytes with
  | [] => exact nomatch h
  | [a] => exact nomatch h
  | a :: b :: rest =>
    simp only [List.length_cons] at hlength
    omega

end KeyEncoding

/-- Where a key is given as text: in hand, in the entry of a guardian who has a name, or in a field of
an envelope. -/
inductive KeyPlace where
  | hand (name : String)
  | roster (place : Nat) (entry : GuardianEntry) (named : (entry.id.bind Text.stated?).isSome = true)
  | envelope (field : String)

namespace KeyPlace

/-- The key that is taken from the place if the text stands there. -/
def read? (s : String) : KeyPlace → Option Bytes
  | hand name => (KeyEncoding.auto.decode name s).toOption
  | roster place entry _ =>
    (({ entry with publicKey := some s } : GuardianEntry).guardian place).toOption.map (·.publicKey)
  | envelope field => (Envelope.bytesOfText field s).toOption

theorem read?_eq_guess? (place : KeyPlace) {s : String} (h : Text.trim s.toList ≠ []) :
    place.read? s = KeyEncoding.guess? (Text.trim s.toList) := by
  have hstated : (Text.trim s.toList).isEmpty = false := by simpa using h
  cases place with
  | hand name => exact KeyEncoding.toOption_decode_auto name h
  | roster place entry named =>
    obtain ⟨id, hid⟩ := Option.isSome_iff_exists.mp named
    rw [← KeyEncoding.toOption_decode_auto s!"public key of guardian `{id}`" h]
    simp only [read?, GuardianEntry.guardian, hid, hstated, Bool.false_eq_true, if_false]
    cases KeyEncoding.auto.decode s!"public key of guardian `{id}`" s <;> rfl
  | envelope field =>
    rw [← KeyEncoding.toOption_decode_auto field h]
    simp only [read?, Envelope.bytesOfText, hstated, Bool.false_eq_true, if_false]
    cases KeyEncoding.auto.decode field s <;> rfl

/-- A key that is written as digits behind a prefix is read from any place. One that is written in
base64 is, if and only if that does not look like such digits; else it is read as they are. -/
theorem keys_are_read_but_for_base64_that_looks_prefixed {key : Bytes} (hkey : key ≠ [])
    (place : KeyPlace) (s : String) :
    (∀ digits, digits.map Char.toLower = Hex.encode key →
      Text.IsPadded ('0' :: 'x' :: digits) s.toList ∨
        Text.IsPadded ('0' :: 'X' :: digits) s.toList → place.read? s = some key) ∧
    (Text.IsPadded (Base64.encode key) s.toList →
      (place.read? s = some key ↔ Base64.looksPrefixed key = false) ∧
      (Base64.looksPrefixed key = true →
        place.read? s = Hex.decode? ((Base64.encode key).drop 2))) := by
  constructor
  · intro digits hdigits hs
    have hplain : ∀ c ∈ digits, Text.isBlank c = false := by
      intro c hc
      have hmem : c.toLower ∈ Hex.encode key := hdigits ▸ List.mem_map_of_mem hc
      rw [← Text.isBlank_toLower]
      exact (Hex.isPlain_of_mem_encode hmem).2
    have htrim : Text.trim s.toList = '0' :: 'x' :: digits ∨
        Text.trim s.toList = '0' :: 'X' :: digits := by
      refine hs.imp (fun h => Text.trim_of_isPadded h ?_) fun h => Text.trim_of_isPadded h ?_ <;>
        simpa [Text.isBlank] using hplain
    have hstated : Text.trim s.toList ≠ [] := by
      rcases htrim with h | h <;> simp [h]
    rw [read?_eq_guess? place hstated]
    exact KeyEncoding.guess?_of_prefixed htrim hdigits
  · intro hs
    have htrim := Text.trim_of_isPadded hs fun c => Base64.not_blank_of_mem_encode
    have hstated : Text.trim s.toList ≠ [] := by
      rw [htrim, Ne, ← List.length_eq_zero_iff, Base64.length_encode]
      have hlength := List.length_pos_iff.mpr hkey
      omega
    rw [read?_eq_guess? place hstated, htrim, KeyEncoding.guess?_encode]
    cases hlooks : Base64.looksPrefixed key with
    | false => simp
    | true => simpa using KeyEncoding.decode?_drop_encode_ne hlooks

theorem either_notation_is_read :
    (KeyPlace.roster 0 ⟨some " ann", none, none, none, none⟩ rfl).read? "\t0XdEaD " =
        some [0xde, 0xad] ∧
      (KeyPlace.envelope "publicKey").read? "\u00a03q0=\n" = some [0xde, 0xad] ∧
      (KeyPlace.envelope "publicKey").read? "0xAA" ≠ some [0xd3, 0x10, 0x00] := by
  have hdead : ([0xde, 0xad] : Bytes) ≠ [] := List.cons_ne_nil _ _
  obtain ⟨hdigits, _⟩ := keys_are_read_but_for_base64_that_looks_prefixed hdead
    (.roster 0 ⟨some " ann", none, none, none, none⟩ rfl) "\t0XdEaD "
  obtain ⟨_, hbase⟩ := keys_are_read_but_for_base64_that_looks_prefixed hdead
    (.envelope "publicKey") "\u00a03q0=\n"
  have hlookalike : ([0xd3, 0x10, 0x00] : Bytes) ≠ [] := List.cons_ne_nil _ _
  obtain ⟨_, hlike⟩ := keys_are_read_but_for_base64_that_looks_prefixed hlookalike
    (.envelope "publicKey") "0xAA"
  have hblanks : Text.IsPadded "0XdEaD".toList "\t0XdEaD ".toList :=
    Text.isPadded_of_all ['\t'] [' '] (by decide) (by decide)
  have hspaces : Text.IsPadded "3q0=".toList "\u00a03q0=\n".toList :=
    Text.isPadded_of_all ['\u00a0'] ['\n'] (by decide) (by decide)
  have hbare : Text.IsPadded "0xAA".toList "0xAA".toList :=
    Text.isPadded_of_all [] [] (by decide) (by decide)
  refine ⟨hdigits ['d', 'E', 'a', 'D'] (by decide) (.inr hblanks),
    (hbase hspaces).1.mpr (by decide), fun h => ?_⟩
  exact absurd ((hlike hbare).1.mp h) (by decide)

/-- The base64 text of a key that is taken for the digits of another. -/
theorem base64_is_taken_for_digits : Base64.encode [0xd3, 0x10, 0x00] = "0xAA".toList ∧
    KeyEncoding.auto.decode "key" "0xAA" = .ok [0xaa] ∧
    (KeyPlace.hand "key").read? "0xAA" ≠ some [0xd3, 0x10, 0x00] := by
  decide +kernel

end KeyPlace
end Countersign
