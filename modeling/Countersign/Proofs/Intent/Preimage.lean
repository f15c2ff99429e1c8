import Countersign.Intent.Domain
import Countersign.Proofs.Bytes.Word

/-! What is hashed for an intent, word by word. The words of a domain have fixed places in front of
those of the intent, so that the bytes of one layout tell both. -/

namespace Countersign

/-- An address in its word. -/
def Address.padded (a : Address) : Bytes := zeros 12 ++ a.bytes

/-- The address of that number. -/
def Address.ofNumber (n : Nat) : Address := ⟨bigEndian 20 n, length_bigEndian 20 n⟩

/-- A selector in its word. -/
def Selector.padded (s : Selector) : Bytes := s.bytes ++ zeros 28

/-- The fields that a digest is bound to. The selector is one of them only if it is hashed. -/
def Domain.bound (d : Domain) : Amount × Address × UInt32 × Option Selector :=
  (d.chain, d.contract, d.version, if d.bindsSelector then some d.selector else none)

@[simp]
theorem Address.length_padded (a : Address) : a.padded.length = 32 := by
  simp [Address.padded, a.length_bytes]

@[simp]
theorem Selector.length_padded (s : Selector) : s.padded.length = 32 := by
  simp [Selector.padded, s.length_bytes]

theorem Address.padded_injective {a b : Address} (h : a.padded = b.padded) : a = b := by
  have hb := List.append_cancel_left h
  cases a
  cases b
  simpa using hb

theorem Selector.padded_injective {s t : Selector} (h : s.padded = t.padded) : s = t := by
  have hb := List.append_cancel_right h
  cases s
  cases t
  simpa using hb

theorem Amount.eq_of_word {a b : Amount} (h : word a.toNat = word b.toNat) : a = b :=
  BitVec.eq_of_toNat_eq (Countersign.eq_of_word a.isLt b.isLt h)

theorem version_lt (v : UInt32) : v.toNat < 2 ^ 256 := by
  have hv := v.toNat_lt
  omega

theorem version_eq_of_word {v w : UInt32} (h : word v.toNat = word w.toNat) : v = w :=
  UInt32.toNat_inj.mp (eq_of_word (version_lt v) (version_lt w) h)

namespace Intent

/-- The data as it is laid out: a word with its length, and the bytes filled up to whole words. -/
def tail (intent : Intent) : Bytes :=
  word intent.data.length ++ (intent.data ++ zeros (padding intent.data.length))

theorem arguments_eq (I : Intent) :
    I.arguments = I.target.padded ++ (word I.value.toNat ++ (word 0x60 ++ I.tail)) := by
  simp only [arguments, tail, Address.padded, List.append_assoc]

theorem data_eq_of_tail {I J : Intent} (h : I.tail = J.tail) : I.data = J.data := by
  obtain ⟨hlength, hdata⟩ := List.append_inj h (by simp)
  exact eq_of_filled hlength hdata

theorem arguments_injective {I J : Intent} (h : I.arguments = J.arguments) : I = J := by
  rw [arguments_eq, arguments_eq] at h
  obtain ⟨htarget, h⟩ := List.append_inj h (by simp)
  obtain ⟨hvalue, h⟩ := List.append_inj h (by simp)
  obtain ⟨_, htail⟩ := List.append_inj h (by simp)
  have ht := Address.padded_injective htarget
  have hv := Amount.eq_of_word hvalue
  have hd := data_eq_of_tail htail
  cases I
  cases J
  simp only [mk.injEq]
  exact ⟨ht, hv, hd⟩

end Intent

namespace Domain

variable {d e : Domain}

/-- The words that every domain has. -/
def scope (d : Domain) : Bytes := word d.chain.toNat ++ (d.contract.padded ++ word d.version.toNat)

@[simp]
theorem length_scope (d : Domain) : d.scope.length = 96 := by simp [scope]

theorem encode_of_selector (h : d.bindsSelector = true) :
    d.encode = d.selector.padded ++ d.scope := by
  simp [encode, h, scope, Selector.padded, Address.padded]

theorem encode_of_no_selector (h : d.bindsSelector = false) : d.encode = d.scope := by
  simp [encode, h, scope, Address.padded]

theorem fields_eq_of_scope (h : d.scope = e.scope) :
    d.chain = e.chain ∧ d.contract = e.contract ∧ d.version = e.version := by
  obtain ⟨hchain, h⟩ := List.append_inj h (by simp)
  obtain ⟨hcontract, hversion⟩ := List.append_inj h (by simp)
  exact ⟨Amount.eq_of_word hchain, Address.padded_injective hcontract, version_eq_of_word hversion⟩

theorem length_encode_of_eq (h : d.bindsSelector = e.bindsSelector) :
    d.encode.length = e.encode.length := by
  cases hd : d.bindsSelector with
  | true => simp [encode_of_selector hd, encode_of_selector (h ▸ hd)]
  | false => simp [encode_of_no_selector hd, encode_of_no_selector (h ▸ hd)]

theorem bound_eq_of_encode (h : d.bindsSelector = e.bindsSelector) (he : d.encode = e.encode) :
    d.bound = e.bound := by
  cases hd : d.bindsSelector with
  | true =>
    rw [encode_of_selector hd, encode_of_selector (h ▸ hd)] at he
    obtain ⟨hselector, hscope⟩ := List.append_inj he (by simp)
    obtain ⟨hchain, hcontract, hversion⟩ := fields_eq_of_scope hscope
    simp [bound, ← h, hd, hchain, hcontract, hversion, Selector.padded_injective hselector]
  | false =>
    rw [encode_of_no_selector hd, encode_of_no_selector (h ▸ hd)] at he
    obtain ⟨hchain, hcontract, hversion⟩ := fields_eq_of_scope he
    simp [bound, ← h, hd, hchain, hcontract, hversion]

end Domain

/-- Of one mode, what is hashed tells the intent and all that its digest is bound to. -/
theorem Intent.eq_of_preimage {I J : Intent} {c d : Option Domain}
    (hmode : c.map (·.bindsSelector) = d.map (·.bindsSelector))
    (h : I.preimage c = J.preimage d) : I = J ∧ c.map Domain.bound = d.map Domain.bound := by
  cases c with
  | none =>
    cases d with
    | none => exact ⟨arguments_injective h, rfl⟩
    | some e => simp at hmode
  | some c =>
    cases d with
    | none => simp at hmode
    | some e =>
      have hsame : c.bindsSelector = e.bindsSelector := by simpa using hmode
      obtain ⟨hencode, harguments⟩ := List.append_inj h (Domain.length_encode_of_eq hsame)
      exact ⟨arguments_injective harguments, congrArg some (Domain.bound_eq_of_encode hsame hencode)⟩

end Countersign
