import Countersign.Proofs.Except
import Countersign.Proofs.Intent.Amount
import Countersign.Proofs.Intent.Request

/-! The requests that intents come of. Target and data are `0x` and digits, two for a byte; what
case the digits are in, and what blanks stand around them, makes no difference. -/

namespace Countersign

namespace Hex

variable {s : List Char} {bytes : Bytes}

/-- The text is `0x` and the digits of the bytes, each in either case. -/
def IsTextOf (s : List Char) (bytes : Bytes) : Prop :=
  ∃ digits, s = '0' :: 'x' :: digits ∧ digits.map Char.toLower = encode bytes

/-- The text is `0x` and so many digits, each in either case. -/
def HasDigits (s : List Char) (count : Nat) : Prop :=
  ∃ digits, s = '0' :: 'x' :: digits ∧ digits.length = count ∧ digits.all isDigit = true

theorem isTextOf_cons_iff {digits : List Char} :
    IsTextOf ('0' :: 'x' :: digits) bytes ↔ decode? digits = some bytes := by
  rw [decode?_eq_some_iff]
  constructor
  · rintro ⟨others, heq, h⟩
    cases heq
    exact h
  · exact fun h => ⟨digits, rfl, h⟩

theorem exists_isTextOf_iff (n : Nat) :
    (∃ bytes, IsTextOf s bytes ∧ bytes.length = n) ↔ HasDigits s (2 * n) := by
  constructor
  · rintro ⟨bytes, ⟨digits, rfl, h⟩, hn⟩
    have hdecode := decode?_eq_some_iff.mpr h
    exact ⟨digits, rfl, hn ▸ length_of_decode? hdecode, (isSome_decode?_iff.mp ⟨bytes, hdecode⟩).2⟩
  · rintro ⟨digits, rfl, hlength, hall⟩
    obtain ⟨bytes, hbytes⟩ := isSome_decode?_iff.mpr ⟨by omega, hall⟩
    have hsame := length_of_decode? hbytes
    exact ⟨bytes, isTextOf_cons_iff.mpr hbytes, by omega⟩

theorem isTextOf_prefixed (bytes : Bytes) : IsTextOf (prefixed bytes).toList bytes := by
  rw [prefixed, String.toList_ofList, isTextOf_cons_iff, decode?_encode]

theorem IsTextOf.trim (h : IsTextOf s bytes) : Text.trim s = s := by
  obtain ⟨digits, rfl, h⟩ := h
  have hall := (isSome_decode?_iff.mp ⟨bytes, decode?_eq_some_iff.mpr h⟩).2
  apply Text.trim_of_no_blank
  intro c hc
  simp only [List.mem_cons] at hc
  rcases hc with rfl | rfl | hc
  · decide
  · decide
  · exact not_blank_of_isDigit (List.all_eq_true.mp hall c hc)

/-- The texts are alike but for the case of their digits and the blanks around them. -/
def AreAlike (s t : String) : Prop :=
  ∃ digits others, Text.trim s.toList = '0' :: 'x' :: digits ∧
    Text.trim t.toList = '0' :: 'x' :: others ∧
    digits.map Char.toLower = others.map Char.toLower

theorem AreAlike.isTextOf_iff {s t : String} (h : AreAlike s t) (bytes : Bytes) :
    IsTextOf (Text.trim s.toList) bytes ↔ IsTextOf (Text.trim t.toList) bytes := by
  obtain ⟨digits, others, hs, ht, hsame⟩ := h
  rw [hs, ht, isTextOf_cons_iff, isTextOf_cons_iff, ← decode?_map_toLower, hsame,
    decode?_map_toLower]

end Hex

namespace HexText

variable {field value : String} {h : HexText} {content : Bytes}

theorem read_eq_ok_iff :
    read field value = .ok h ↔ ∃ digits, value.toList = '0' :: 'x' :: digits ∧
      digits.all Hex.isDigit = true ∧ h.digits = digits.map Char.toLower := by
  unfold read
  split
  · rename_i digits hvalue
    rw [hvalue]
    by_cases hall : digits.all Hex.isDigit = true
    · rw [if_pos hall]
      constructor
      · intro h
        cases h
        exact ⟨digits, rfl, hall, rfl⟩
      · rintro ⟨_, heq, _, hd⟩
        cases heq
        cases h
        cases hd
        rfl
    · rw [if_neg hall]
      refine ⟨nofun, ?_⟩
      rintro ⟨_, heq, hall', _⟩
      cases heq
      exact absurd hall' hall
  · rename_i hno
    exact ⟨nofun, fun ⟨digits, hvalue, _⟩ => absurd hvalue (hno digits)⟩

theorem bytes_eq_ok_iff : h.bytes field = .ok content ↔ Hex.decode? h.digits = some content := by
  unfold bytes
  constructor
  · intro hb
    obtain ⟨_, hb⟩ := of_check_eq_ok hb
    split at hb
    · rename_i hdecode
      cases hb
      exact hdecode
    · cases hb
  · intro hdecode
    have heven := (Hex.isSome_decode?_iff.mp ⟨content, hdecode⟩).1
    rw [if_neg (by omega), hdecode]

/-- Once a text has been read, an odd number of digits is all that can be wrong with it. -/
theorem bytes_eq_error_iff (hr : read field value = .ok h) {name : String} {fault : IntentFault} :
    h.bytes name = .error fault ↔ h.digits.length % 2 = 1 ∧ fault = .oddHex name := by
  obtain ⟨digits, _, hall, hdigits⟩ := read_eq_ok_iff.mp hr
  have hdecode : Hex.decode? h.digits = Hex.decode? digits := by
    rw [hdigits, Hex.decode?_map_toLower]
  have hlength : h.digits.length = digits.length := by rw [hdigits, List.length_map]
  unfold bytes
  by_cases hodd : h.digits.length % 2 ≠ 0
  · have hone : h.digits.length % 2 = 1 := by omega
    rw [if_pos hodd]
    exact ⟨fun heq => ⟨hone, (Except.error.inj heq).symm⟩, fun heq => heq.2 ▸ rfl⟩
  · obtain ⟨content, hcontent⟩ := Hex.isSome_decode?_iff.mpr ⟨by omega, hall⟩
    rw [if_neg hodd, hdecode, hcontent]
    exact ⟨nofun, fun heq => absurd heq.1 (by omega)⟩

/-- A text is read as the bytes whose digits follow its `0x`. -/
theorem read_bytes_eq_ok_iff {name : String} :
    (∃ h, read field value = .ok h ∧ h.bytes name = .ok content) ↔
      Hex.IsTextOf value.toList content := by
  constructor
  · rintro ⟨h, hr, hb⟩
    obtain ⟨digits, hvalue, _, hdigits⟩ := read_eq_ok_iff.mp hr
    rw [hvalue, Hex.isTextOf_cons_iff, ← Hex.decode?_map_toLower, ← hdigits]
    exact bytes_eq_ok_iff.mp hb
  · rintro ⟨digits, hvalue, h⟩
    have hdecode := Hex.decode?_eq_some_iff.mpr h
    have hall := (Hex.isSome_decode?_iff.mp ⟨content, hdecode⟩).2
    exact ⟨_, read_eq_ok_iff.mpr ⟨digits, hvalue, hall, rfl⟩,
      bytes_eq_ok_iff.mpr ((Hex.decode?_map_toLower digits).trans hdecode)⟩

end HexText

theorem Address.ofBytes?_eq_some_iff {bytes : Bytes} {a : Address} :
    ofBytes? bytes = some a ↔ a.bytes = bytes := by
  unfold ofBytes?
  split
  · rw [Option.some.injEq]
    exact ⟨fun h => h ▸ rfl, fun h => by cases a; cases h; rfl⟩
  · rename_i hlength
    exact ⟨nofun, fun h => absurd (h ▸ a.length_bytes) hlength⟩

namespace Request

/-- The request asks for the intent, field by field. -/
structure AsksFor (r : Request) (I : Intent) : Prop where
  target : ∃ s ∈ r.target, Hex.IsTextOf (Text.trim s.toList) I.target.bytes
  value : ∃ q ∈ r.value, q.amount = .ok I.value
  data : (r.data = none ∧ I.data = []) ∨ ∃ s ∈ r.data, Hex.IsTextOf (Text.trim s.toList) I.data

end Request

namespace Intent

theorem ofRequest_eq_ok_iff {r : Request} {I : Intent} : ofRequest r = .ok I ↔ r.AsksFor I := by
  obtain ⟨target?, value?, data?⟩ := r
  cases target? with
  | none => exact ⟨nofun, fun h => nomatch h.target⟩
  | some target =>
    have hread : ∀ (field : String) {s : String} {content : Bytes},
        (∃ h, HexText.read field (Text.trimmed s) = .ok h ∧ h.bytes field = .ok content) ↔
          Hex.IsTextOf (Text.trim s.toList) content := by
      intro field s content
      rw [HexText.read_bytes_eq_ok_iff, Text.trimmed, String.toList_ofList]
    constructor
    · intro h
      obtain ⟨digits, hdigits, h⟩ := exists_of_bind_eq_ok h
      obtain ⟨bytes, hbytes, h⟩ := exists_of_bind_eq_ok h
      have htarget := (hread _).mp ⟨digits, hdigits, hbytes⟩
      cases haddress : Address.ofBytes? bytes with
      | none =>
        rw [haddress] at h
        cases h
      | some a =>
        rw [haddress] at h
        rw [← Address.ofBytes?_eq_some_iff.mp haddress] at htarget
        cases value? with
        | none => cases h
        | some q =>
          obtain ⟨v, hv, h⟩ := exists_of_bind_eq_ok h
          cases data? with
          | none =>
            cases h
            exact ⟨⟨target, rfl, htarget⟩, ⟨q, rfl, hv⟩, .inl ⟨rfl, rfl⟩⟩
          | some data =>
            obtain ⟨digits, hdigits, h⟩ := exists_of_bind_eq_ok h
            obtain ⟨content, hcontent, h⟩ := exists_of_bind_eq_ok h
            cases h
            exact ⟨⟨target, rfl, htarget⟩, ⟨q, rfl, hv⟩,
              .inr ⟨data, rfl, (hread _).mp ⟨digits, hdigits, hcontent⟩⟩⟩
    · rintro ⟨⟨_, ⟨⟩, htarget⟩, ⟨q, ⟨⟩, hv⟩, hdata⟩
      obtain ⟨digits, hdigits, hbytes⟩ := (hread "to").mpr htarget
      have haddress := Address.ofBytes?_eq_some_iff.mpr (rfl : I.target.bytes = _)
      rcases hdata with ⟨⟨⟩, hnil⟩ | ⟨data, ⟨⟩, hdata⟩
      · simp only [ofRequest, hdigits, hbytes, haddress, hv, bind, Except.bind, ← hnil]
        rfl
      · obtain ⟨more, hmore, hcontent⟩ := (hread "data").mpr hdata
        simp only [ofRequest, hdigits, hbytes, haddress, hv, hmore, hcontent, bind, Except.bind]
        rfl

/-- With a value that is an amount, there is an intent just if target and data have their digits. -/
theorem exists_ofRequest_iff {r : Request} {q : Quantity} {v : Amount} (hq : q ∈ r.value)
    (hv : q.amount = .ok v) :
    (∃ I, ofRequest r = .ok I) ↔ (∃ s ∈ r.target, Hex.HasDigits (Text.trim s.toList) 40) ∧
      ∀ s ∈ r.data, ∃ n, Hex.HasDigits (Text.trim s.toList) (2 * n) := by
  constructor
  · rintro ⟨I, h⟩
    obtain ⟨⟨s, hs, htarget⟩, _, hdata⟩ := ofRequest_eq_ok_iff.mp h
    refine ⟨⟨s, hs, (Hex.exists_isTextOf_iff 20).mp ⟨_, htarget, I.target.length_bytes⟩⟩, ?_⟩
    intro data hmem
    rcases hdata with ⟨hnone, _⟩ | ⟨given, hgiven, hdata⟩
    · exact nomatch hnone ▸ hmem
    · obtain rfl := Option.mem_unique hmem hgiven
      exact ⟨I.data.length, (Hex.exists_isTextOf_iff _).mp ⟨_, hdata, rfl⟩⟩
  · rintro ⟨⟨s, hs, htarget⟩, hdata⟩
    obtain ⟨bytes, htarget, hlength⟩ := (Hex.exists_isTextOf_iff 20).mpr htarget
    cases hgiven : r.data with
    | none =>
      exact ⟨⟨⟨bytes, hlength⟩, v, []⟩, ofRequest_eq_ok_iff.mpr
        ⟨⟨s, hs, htarget⟩, ⟨q, hq, hv⟩, .inl ⟨hgiven, rfl⟩⟩⟩
    | some data =>
      obtain ⟨n, hn⟩ := hdata data hgiven
      obtain ⟨content, hcontent, _⟩ := (Hex.exists_isTextOf_iff n).mpr hn
      exact ⟨⟨⟨bytes, hlength⟩, v, content⟩, ofRequest_eq_ok_iff.mpr
        ⟨⟨s, hs, htarget⟩, ⟨q, hq, hv⟩, .inr ⟨data, hgiven, hcontent⟩⟩⟩

/-- Neither the case of the digits nor the blanks around them are seen. -/
theorem ofRequest_of_areAlike {target target' : String} {data data' : Option String}
    {value : Option Quantity} {I : Intent} (ht : Hex.AreAlike target target')
    (hd : Option.Rel Hex.AreAlike data data') :
    ofRequest ⟨some target, value, data⟩ = .ok I ↔
      ofRequest ⟨some target', value, data'⟩ = .ok I := by
  rw [ofRequest_eq_ok_iff, ofRequest_eq_ok_iff]
  have htarget := ht.isTextOf_iff I.target.bytes
  have hdata : ((data = none ∧ I.data = []) ∨
      ∃ s ∈ data, Hex.IsTextOf (Text.trim s.toList) I.data) ↔ ((data' = none ∧ I.data = []) ∨
      ∃ s ∈ data', Hex.IsTextOf (Text.trim s.toList) I.data) := by
    cases hd with
    | none => rfl
    | some h => simp [h.isTextOf_iff I.data]
  constructor
  · rintro ⟨⟨_, ⟨⟩, h⟩, hvalue, hd⟩
    exact ⟨⟨_, rfl, htarget.mp h⟩, hvalue, hdata.mp hd⟩
  · rintro ⟨⟨_, ⟨⟩, h⟩, hvalue, hd⟩
    exact ⟨⟨_, rfl, htarget.mpr h⟩, hvalue, hdata.mpr hd⟩

/-- A request in which an intent is written out asks for that intent. -/
theorem ofRequest_written {I : Intent} {target data : String} {q : Quantity}
    (ht : Hex.IsTextOf target.toList I.target.bytes) (hq : q.amount = .ok I.value)
    (hd : Hex.IsTextOf data.toList I.data) :
    ofRequest ⟨some target, some q, some data⟩ = .ok I ∧
      (I.data = [] → ofRequest ⟨some target, some q, none⟩ = .ok I) := by
  have htarget : ∃ s ∈ some target, Hex.IsTextOf (Text.trim s.toList) I.target.bytes :=
    ⟨target, rfl, ht.trim.symm ▸ ht⟩
  exact ⟨ofRequest_eq_ok_iff.mpr ⟨htarget, ⟨q, rfl, hq⟩, .inr ⟨data, rfl, hd.trim.symm ▸ hd⟩⟩,
    fun hnil => ofRequest_eq_ok_iff.mpr ⟨htarget, ⟨q, rfl, hq⟩, .inl ⟨rfl, hnil⟩⟩⟩

/-- What comes of a request is what its texts say, and any intent comes of the texts that say it. -/
theorem requests_are_read_exactly :
    (∀ (r : Request) (q : Quantity) (v : Amount), q ∈ r.value → q.amount = .ok v →
      ((∃ I, ofRequest r = .ok I) ↔ (∃ s ∈ r.target, Hex.HasDigits (Text.trim s.toList) 40) ∧
        ∀ s ∈ r.data, ∃ n, Hex.HasDigits (Text.trim s.toList) (2 * n))) ∧
    (∀ (r : Request) (I : Intent), ofRequest r = .ok I ↔ r.AsksFor I) ∧
    (∀ (target target' : String) (data data' : Option String) (value : Option Quantity) (I : Intent),
      Hex.AreAlike target target' → Option.Rel Hex.AreAlike data data' →
      (ofRequest ⟨some target, value, data⟩ = .ok I ↔
        ofRequest ⟨some target', value, data'⟩ = .ok I)) ∧
    (∀ (I : Intent) (target data value : String), Hex.IsTextOf target.toList I.target.bytes →
      Hex.IsTextOf data.toList I.data → Quantity.IsWritten value.toList I.value.toNat →
      ∀ q ∈ [.number I.value, .text value], ofRequest ⟨some target, some q, some data⟩ = .ok I ∧
        (I.data = [] → ofRequest ⟨some target, some q, none⟩ = .ok I)) ∧
    (∀ I : Intent,
      ∀ value ∈ [Text.decimal I.value.toNat, '0' :: 'x' :: Nat.toDigits 16 I.value.toNat],
        ofRequest ⟨some I.target.text, some (.text (String.ofList value)),
          some (Hex.prefixed I.data)⟩ = .ok I) ∧
    ∀ (field value : String) (h : HexText), HexText.read field value = .ok h →
      ∀ (name : String) (fault : IntentFault),
        h.bytes name = .error fault ↔ h.digits.length % 2 = 1 ∧ fault = .oddHex name := by
  refine ⟨fun r q v => exists_ofRequest_iff, fun r I => ofRequest_eq_ok_iff,
    fun _ _ _ _ _ _ => ofRequest_of_areAlike, ?_, ?_,
    fun _ _ _ hr _ _ => HexText.bytes_eq_error_iff hr⟩
  · intro I target data value ht hd hv q hq
    have hamount : q.amount = .ok I.value := by
      rcases List.mem_pair.mp hq with rfl | rfl
      · rfl
      · exact Quantity.ofText_of_isWritten hv
    exact ofRequest_written ht hamount hd
  · intro I value hvalue
    have hwritten : Quantity.IsWritten (String.ofList value).toList I.value.toNat := by
      rw [String.toList_ofList]
      rcases List.mem_pair.mp hvalue with rfl | rfl
      · exact Quantity.isWritten_decimal _
      · exact Quantity.isWritten_toDigits _
    have hamount : (Quantity.text (String.ofList value)).amount = .ok I.value :=
      Quantity.ofText_of_isWritten hwritten
    exact (ofRequest_written (Hex.isTextOf_prefixed _) hamount (Hex.isTextOf_prefixed _)).1

theorem odd_digits_are_refused :
    (∃ I, ofRequest ⟨some " 0x0000000000000000000000000000000000000aBc\n", some (.text "0X10"),
      some "0xCd"⟩ = .ok I) ∧
    (¬ ∃ I, ofRequest ⟨some "0x0000000000000000000000000000000000000abc", some (.text "0X10"),
      some "0xCde"⟩ = .ok I) ∧
    HexText.read "data" "0xCde" = .ok ⟨['c', 'd', 'e']⟩ ∧
    HexText.bytes "data" ⟨['c', 'd', 'e']⟩ = .error (.oddHex "data") := by
  obtain ⟨hexists, _, _, _, _, hfault⟩ := requests_are_read_exactly
  have hdigits : Hex.HasDigits
      (Text.trim " 0x0000000000000000000000000000000000000aBc\n".toList) 40 :=
    ⟨"0000000000000000000000000000000000000aBc".toList, by decide, by decide, by decide⟩
  have hread : HexText.read "data" "0xCde" = .ok ⟨['c', 'd', 'e']⟩ := by decide
  refine ⟨(hexists _ (.text "0X10") 16 rfl (by decide)).mpr ⟨⟨_, rfl, hdigits⟩, ?_⟩, ?_, hread,
    (hfault "data" "0xCde" _ hread "data" _).mpr ⟨by decide, rfl⟩⟩
  · rintro _ ⟨⟩
    exact ⟨1, ['C', 'd'], by decide, by decide, by decide⟩
  · intro h
    obtain ⟨_, hdata⟩ := (hexists _ (.text "0X10") 16 rfl (by decide)).mp h
    obtain ⟨n, digits, hs, hlength, _⟩ := hdata _ rfl
    have hthree : digits.length = 3 := by
      have heq : Text.trim "0xCde".toList = ['0', 'x', 'C', 'd', 'e'] := by decide
      cases heq.symm.trans hs
      rfl
    omega

end Intent
end Countersign
