import Countersign.Intent.Calldata
import Countersign.Proofs.Bytes.Word

/-! The bytes of a call. They are the standard layout of its arguments behind the selector of the
function, and nothing else is read as a call. -/

namespace Countersign

/-! ### The standard layout -/

/-- An argument of a call, of one of the types that the calls of this library have. -/
inductive Argument where
  | address (a : Address)
  | amount (n : Amount)
  | octets (content : Bytes)

namespace Argument

/-- The name of its type in the signature of a function. -/
def kind : Argument → String
  | address _ => "address"
  | amount _ => "uint256"
  | octets _ => "bytes"

/-- What stands behind the words of all arguments. Of these types only bytes have no fixed size. -/
def tail : Argument → Bytes
  | address _ => []
  | amount _ => []
  | octets content => word content.length ++ content ++ zeros (padding content.length)

/-- The word of an argument whose tail starts at `place`. -/
def head (place : Nat) : Argument → Bytes
  | address a => zeros 12 ++ a.bytes
  | amount n => word n.toNat
  | octets _ => word place

def heads (place : Nat) : List Argument → Bytes
  | [] => []
  | a :: rest => a.head place ++ heads (place + a.tail.length) rest

/-- A word for each argument, and then the tails. -/
def layout (arguments : List Argument) : Bytes :=
  heads (32 * arguments.length) arguments ++ arguments.flatMap tail

def signature (name : String) (arguments : List Argument) : String :=
  name ++ "(" ++ ",".intercalate (arguments.map kind) ++ ")"

/-- The call of a function: its selector and the layout of the arguments. -/
def call (name : String) (arguments : List Argument) : Bytes :=
  (Selector.ofSignature (signature name arguments)).bytes ++ layout arguments

end Argument

namespace Intent

def parameters (I : Intent) : List Argument := [.address I.target, .amount I.value, .octets I.data]

theorem arguments_eq_layout (I : Intent) : I.arguments = Argument.layout I.parameters := by
  simp [arguments, Argument.layout, parameters, Argument.heads, Argument.head, Argument.tail]

theorem signature_parameters (I : Intent) :
    Argument.signature "executeTransaction" I.parameters = Selector.executeSignature := by
  have hkinds : I.parameters.map Argument.kind = ["address", "uint256", "bytes"] := rfl
  rw [Argument.signature, hkinds]
  decide

theorem calldata_eq_call (I : Intent) :
    I.calldata = Argument.call "executeTransaction" I.parameters := by
  rw [Argument.call, signature_parameters, ← arguments_eq_layout]
  rfl

theorem length_arguments (I : Intent) :
    I.arguments.length = 128 + I.data.length + padding I.data.length := by
  have ht := I.target.length_bytes
  simp only [arguments, List.length_append, length_zeros, length_word, ht]

/-! ### Reading -/

/-- The length that the fourth word states for the data. -/
def statedLength (bytes : Bytes) : Nat := ofBigEndian ((bytes.drop 96).take 32)

/-- What arguments have to be wherever no field stands: they are no longer and no shorter than the
data and the words in front of them, and they are filled up with zeros. -/
structure AreArguments (bytes : Bytes) : Prop where
  target : bytes.take 12 = zeros 12
  place : (bytes.drop 64).take 32 = word 0x60
  length : bytes.length = 128 + statedLength bytes + padding (statedLength bytes)
  filled : bytes.drop (128 + statedLength bytes) = zeros (padding (statedLength bytes))

/-- The fields of the intent are those that the bytes hold. -/
structure AreFields (bytes : Bytes) (I : Intent) : Prop where
  target : I.target.bytes = (bytes.drop 12).take 20
  value : I.value = BitVec.ofNat 256 (ofBigEndian ((bytes.drop 32).take 32))
  data : I.data = (bytes.drop 128).take (statedLength bytes)

variable {bytes : Bytes} {I : Intent}

theorem AreArguments.exists_fields (h : AreArguments bytes) : ∃ I, AreFields bytes I := by
  have hlong := h.length
  have htarget : ((bytes.drop 12).take 20).length = 20 := by
    rw [List.length_take, List.length_drop]
    omega
  exact ⟨⟨⟨_, htarget⟩, _, _⟩, rfl, rfl, rfl⟩

theorem ofArguments?_eq_some_iff :
    ofArguments? bytes = some I ↔ AreArguments bytes ∧ AreFields bytes I := by
  have hdrop : (bytes.drop 128).drop (statedLength bytes) = bytes.drop (128 + statedLength bytes) :=
    List.drop_drop
  have hlength : (bytes.drop 128).length = bytes.length - 128 := List.length_drop
  constructor
  · intro h
    simp only [ofArguments?, Option.bind_eq_bind, Option.bind_eq_some_iff] at h
    obtain ⟨target, htarget, h⟩ := h
    split at h
    case isFalse => exact nomatch h
    case isTrue hc =>
      obtain ⟨hlong, hzero, hplace, hle, hfilled⟩ := hc
      change statedLength bytes ≤ _ at hle
      change (bytes.drop 128).drop (statedLength bytes) =
        zeros (padding (statedLength bytes)) at hfilled
      rw [hdrop] at hfilled
      have hcount := congrArg List.length hfilled
      rw [List.length_drop, length_zeros] at hcount
      cases h
      refine ⟨⟨hzero, hplace, by omega, hfilled⟩, ?_, rfl, rfl⟩
      unfold Address.ofBytes? at htarget
      split at htarget
      · cases htarget
        rfl
      · exact nomatch htarget
  · rintro ⟨ha, ht, hv, hd⟩
    have hlong := ha.length
    have htarget : Address.ofBytes? ((bytes.drop 12).take 20) = some I.target := by
      rw [← ht, Address.ofBytes?, dif_pos I.target.length_bytes]
    have hc : 128 ≤ bytes.length ∧ bytes.take 12 = zeros 12 ∧ (bytes.drop 64).take 32 = word 0x60 ∧
        statedLength bytes ≤ (bytes.drop 128).length ∧
        (bytes.drop 128).drop (statedLength bytes) = zeros (padding (statedLength bytes)) :=
      ⟨by omega, ha.target, ha.place, by omega, hdrop.trans ha.filled⟩
    simp only [ofArguments?, htarget, Option.bind_eq_bind, Option.bind_some]
    refine (if_pos hc).trans ?_
    rw [← statedLength, ← hv, ← hd]
    rfl

/-- The words in front of the data, the first of them in its two parts, and what follows them. -/
theorem eq_words (bytes : Bytes) :
    bytes = bytes.take 12 ++ ((bytes.drop 12).take 20 ++ ((bytes.drop 32).take 32 ++
      ((bytes.drop 64).take 32 ++ ((bytes.drop 96).take 32 ++ bytes.drop 128)))) := by
  have hcut : ∀ k m, bytes.drop k = (bytes.drop k).take m ++ bytes.drop (k + m) := by
    intro k m
    rw [← List.drop_drop, List.take_append_drop]
  rw [← hcut 96 32, ← hcut 64 32, ← hcut 32 32, ← hcut 12 20, List.take_append_drop]

theorem eq_words_arguments (I : Intent) :
    I.arguments = zeros 12 ++ (I.target.bytes ++ (word I.value.toNat ++ (word 0x60 ++
      (word I.data.length ++ (I.data ++ zeros (padding I.data.length)))))) := by
  simp only [arguments, List.append_assoc]

theorem length_cut {k m : Nat} (h : k + m ≤ bytes.length) : ((bytes.drop k).take m).length = m := by
  rw [List.length_take, List.length_drop]
  omega

theorem AreFields.eq_arguments (ha : AreArguments bytes) (hf : AreFields bytes I) :
    bytes = I.arguments ∧ I.data.length < 2 ^ 256 := by
  have hlong := ha.length
  have hsmall : ∀ k, ofBigEndian ((bytes.drop k).take 32) < 2 ^ 256 := fun k =>
    ofBigEndian_lt_of_length (List.length_take_le _ _)
  have hvalue : word I.value.toNat = (bytes.drop 32).take 32 := by
    rw [hf.value, BitVec.toNat_ofNat, Nat.mod_eq_of_lt (hsmall 32),
      word_ofBigEndian (length_cut (by omega))]
  have hlength : I.data.length = statedLength bytes := by
    rw [hf.data, length_cut (by omega)]
  have hstated : word I.data.length = (bytes.drop 96).take 32 := by
    rw [hlength, statedLength, word_ofBigEndian (length_cut (by omega))]
  have htail : bytes.drop 128 = I.data ++ zeros (padding I.data.length) := by
    rw [hlength, ← ha.filled, hf.data, ← List.drop_drop, List.take_append_drop]
  refine ⟨?_, hlength ▸ hsmall 96⟩
  rw [eq_words_arguments, hvalue, hstated, ← htail, hf.target, ← ha.place, ← ha.target]
  exact eq_words bytes

theorem areArguments_arguments (h : I.data.length < 2 ^ 256) :
    AreArguments I.arguments ∧ AreFields I.arguments I := by
  have ht := I.target.length_bytes
  have hlong := I.length_arguments
  have heq := (eq_words I.arguments).symm.trans I.eq_words_arguments
  obtain ⟨hzero, heq⟩ := List.append_inj heq (by rw [length_zeros, List.length_take]; omega)
  obtain ⟨htarget, heq⟩ := List.append_inj heq (by rw [ht, length_cut (by omega)])
  obtain ⟨hvalue, heq⟩ := List.append_inj heq (by rw [length_word, length_cut (by omega)])
  obtain ⟨hplace, heq⟩ := List.append_inj heq (by rw [length_word, length_cut (by omega)])
  obtain ⟨hlength, hrest⟩ := List.append_inj heq (by rw [length_word, length_cut (by omega)])
  have hstated : statedLength I.arguments = I.data.length := by
    rw [statedLength, hlength, ofBigEndian_word h]
  have hfilled : I.arguments.drop (128 + I.data.length) = zeros (padding I.data.length) := by
    rw [← List.drop_drop, hrest, List.drop_left]
  refine ⟨⟨hzero, hplace, ?_, ?_⟩, htarget.symm, ?_, ?_⟩
  · rw [hstated, hlong]
  · rw [hstated, hfilled]
  · rw [hvalue, ofBigEndian_word I.value.isLt, BitVec.ofNat_toNat, BitVec.setWidth_eq]
  · rw [hstated, hrest, List.take_left]

theorem ofArguments?_eq_some_iff_eq :
    ofArguments? bytes = some I ↔ bytes = I.arguments ∧ I.data.length < 2 ^ 256 := by
  rw [ofArguments?_eq_some_iff]
  constructor
  · rintro ⟨ha, hf⟩
    exact hf.eq_arguments ha
  · rintro ⟨rfl, h⟩
    exact areArguments_arguments h

theorem ofCalldata?_eq_some_iff :
    ofCalldata? bytes = some I ↔ bytes = I.calldata ∧ I.data.length < 2 ^ 256 := by
  have hdrop : I.calldata.drop 4 = I.arguments := List.drop_left' Selector.execute.length_bytes
  have htake : I.calldata.take 4 = Selector.execute.bytes :=
    List.take_left' Selector.execute.length_bytes
  unfold ofCalldata?
  split
  case isTrue h =>
    rw [ofArguments?_eq_some_iff_eq]
    constructor
    · rintro ⟨harguments, hlength⟩
      rw [← List.take_append_drop 4 bytes, h, harguments]
      exact ⟨rfl, hlength⟩
    · rintro ⟨rfl, hlength⟩
      exact ⟨hdrop, hlength⟩
  case isFalse h =>
    refine ⟨nofun, ?_⟩
    rintro ⟨rfl, _⟩
    exact absurd htake h

/-- What a call has to be wherever no field of the intent stands. -/
structure IsCalldata (bytes : Bytes) : Prop where
  selector : bytes.take 4 = Selector.execute.bytes
  arguments : AreArguments (bytes.drop 4)

theorem isSome_ofCalldata?_iff : (ofCalldata? bytes).isSome ↔ IsCalldata bytes := by
  rw [Option.isSome_iff_exists]
  constructor
  · rintro ⟨I, h⟩
    unfold ofCalldata? at h
    split at h
    · exact ⟨‹_›, (ofArguments?_eq_some_iff.mp h).1⟩
    · exact nomatch h
  · rintro ⟨hselector, ha⟩
    obtain ⟨I, hf⟩ := ha.exists_fields
    refine ⟨I, ?_⟩
    rw [ofCalldata?, if_pos hselector]
    exact ofArguments?_eq_some_iff.mpr ⟨ha, hf⟩

/-- A call is the standard layout of the arguments that are hashed for the intent, behind the
selector of its function. It is read as the intent it was written for, as long as a word can state
the length of the data, and nothing else is read as that intent. What is refused differs from a call
in its selector, where an address is filled up, where the data start, or in how they end. -/
theorem calldata_is_read_exactly :
    (∀ I : Intent, I.calldata = Selector.execute.bytes ++ I.arguments ∧
      I.arguments = Argument.layout I.parameters ∧
      I.calldata = Argument.call "executeTransaction" I.parameters) ∧
    (∀ bytes I, ofCalldata? bytes = some I ↔ bytes = I.calldata ∧ I.data.length < 2 ^ 256) ∧
    ∀ bytes, (ofCalldata? bytes).isSome ↔ IsCalldata bytes :=
  ⟨fun I => ⟨rfl, I.arguments_eq_layout, I.calldata_eq_call⟩,
    fun _ _ => ofCalldata?_eq_some_iff, fun _ => isSome_ofCalldata?_iff⟩

end Intent
end Countersign
