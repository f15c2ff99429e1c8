import Countersign.Cbor.Reader
import Countersign.Proofs.Bytes.Word

/-! The first bytes of an item. They are read back as the kind and the number they were written for,
and no fewer bytes state the two. -/

namespace Countersign.Cbor

variable {kind n : Nat} {rest : Bytes}

theorem cut?_append (a rest : Bytes) : cut? a.length (a ++ rest) = some (a, rest) := by
  simp [cut?]

theorem of_cut? {bytes a : Bytes} (h : cut? n bytes = some (a, rest)) :
    bytes = a ++ rest ∧ a.length = n := by
  unfold cut? at h
  split at h
  · cases h
    exact ⟨(List.take_append_drop n bytes).symm, List.length_take_of_le ‹_›⟩
  · exact nomatch h

theorem readHead_small (kind n : Nat) (hk : kind < 8) (hn : n < 24) :
    readHead (UInt8.ofNat (32 * kind + n) :: rest) = some (kind, .given n 0, rest) := by
  have hb : (UInt8.ofNat (32 * kind + n)).toNat = 32 * kind + n := by
    rw [UInt8.toNat_ofNat', Nat.mod_eq_of_lt (by omega)]
  have hkind : (32 * kind + n) / 32 = kind := by omega
  have hinfo : (32 * kind + n) % 32 = n := by omega
  simp only [readHead, hb, hkind, hinfo, if_pos hn]

/-- A number of one, two, four or eight bytes behind the byte that says how many they are. -/
theorem readHead_large {step : Nat} {digits : Bytes} (hk : kind < 8) (hs : step < 4)
    (hd : digits.length = 1 <<< step) :
    readHead (UInt8.ofNat (32 * kind + (24 + step)) :: digits ++ rest) =
      some (kind, .given (ofBigEndian digits) (1 <<< step), rest) := by
  have hb : (UInt8.ofNat (32 * kind + (24 + step))).toNat = 32 * kind + (24 + step) := by
    rw [UInt8.toNat_ofNat', Nat.mod_eq_of_lt (by omega)]
  have hkind : (32 * kind + (24 + step)) / 32 = kind := by omega
  have hinfo : (32 * kind + (24 + step)) % 32 = 24 + step := by omega
  have hlarge : ¬ 24 + step < 24 := by omega
  have hwide : 24 + step < 28 := by omega
  have hcut : cut? (1 <<< step) (digits ++ rest) = some (digits, rest) :=
    hd ▸ cut?_append digits rest
  simp only [List.cons_append, readHead, hb, hkind, hinfo, if_neg hlarge, if_pos hwide,
    Nat.add_sub_cancel_left, hcut, Option.bind_eq_bind, Option.bind_some, Option.pure_def]

theorem readHead_head (kind : Nat) (hk : kind < 8) (hn : n < 2 ^ 64) (rest : Bytes) :
    ∃ width, readHead (head kind n ++ rest) = some (kind, .given n width, rest) := by
  have hlarge : ∀ step < 4, n < 256 ^ (1 <<< step) →
      readHead (UInt8.ofNat (32 * kind + (24 + step)) :: bigEndian (1 <<< step) n ++ rest) =
        some (kind, .given n (1 <<< step), rest) := by
    intro step hs hlt
    rw [readHead_large hk hs (length_bigEndian _ n), ofBigEndian_bigEndian, Nat.mod_eq_of_lt hlt]
  unfold head
  split
  · exact ⟨0, readHead_small kind n hk ‹_›⟩
  · split
    · exact ⟨1, hlarge 0 (by decide) ‹_›⟩
    · split
      · exact ⟨2, hlarge 1 (by decide) ‹_›⟩
      · split
        · exact ⟨4, hlarge 2 (by decide) ‹_›⟩
        · exact ⟨8, hlarge 3 (by decide) hn⟩

theorem readHead_kind {kind : Nat} {argument : Argument}
    (h : readHead bytes = some (kind, argument, rest)) :
    ∃ b more, bytes = b :: more ∧ kind = b.toNat / 32 := by
  cases bytes with
  | nil => exact nomatch h
  | cons b more =>
    refine ⟨b, more, rfl, ?_⟩
    unfold readHead at h
    dsimp only at h
    split at h
    · cases h
      rfl
    · split at h
      · obtain ⟨_, _, heq⟩ := Option.bind_eq_some_iff.mp h
        cases heq
        rfl
      · split at h
        · cases h
          rfl
        · exact nomatch h

/-- What a number needs in a head, and what there is of it. -/
theorem readHead_cases {bytes : Bytes} {width : Nat}
    (h : readHead bytes = some (kind, .given n width, rest)) :
    (n < 24 ∧ bytes.length = 1 + rest.length) ∨
    (∃ step < 4, n < 256 ^ (1 <<< step) ∧ bytes.length = 1 + 1 <<< step + rest.length) := by
  cases bytes with
  | nil => exact nomatch h
  | cons b bytes =>
    unfold readHead at h
    dsimp only at h
    split at h
    · cases h
      exact .inl ⟨‹_›, Nat.add_comm _ 1⟩
    · split at h
      · obtain ⟨⟨digits, more⟩, hcut, heq⟩ := Option.bind_eq_some_iff.mp h
        cases heq
        obtain ⟨rfl, hlength⟩ := of_cut? hcut
        refine .inr ⟨b.toNat % 32 - 24, by omega, hlength ▸ ofBigEndian_lt digits, ?_⟩
        simp only [List.length_cons, List.length_append, hlength]
        omega
      · split at h <;> exact nomatch h

theorem length_head_le {bytes : Bytes} {width : Nat}
    (h : readHead bytes = some (kind, .given n width, rest)) :
    (head kind n).length + rest.length ≤ bytes.length := by
  have hlength : (head kind n).length = if n < 24 then 1 else if n < 256 then 2
      else if n < 65536 then 3 else if n < 4294967296 then 5 else 9 := by
    unfold head
    split_ifs <;> simp
  rw [hlength]
  rcases readHead_cases h with ⟨hn, hb⟩ | ⟨step, hs, hn, hb⟩
  · rw [if_pos hn]
    omega
  · have hcases : step = 0 ∨ step = 1 ∨ step = 2 ∨ step = 3 := by omega
    rcases hcases with rfl | rfl | rfl | rfl <;> simp at hn hb <;> split_ifs <;> omega

/-- Bytes that state a kind and a number, where no fewer bytes do. -/
structure IsShortestHead (kind n : Nat) (bytes : Bytes) : Prop where
  states : ∀ rest, ∃ width, readHead (bytes ++ rest) = some (kind, .given n width, rest)
  shortest : ∀ other width rest, readHead other = some (kind, .given n width, rest) →
    bytes.length + rest.length ≤ other.length

theorem isShortestHead_head (kind : Nat) (hk : kind < 8) (hn : n < 2 ^ 64) :
    IsShortestHead kind n (head kind n) :=
  ⟨readHead_head kind hk hn, fun _ _ _ h => length_head_le h⟩

end Countersign.Cbor
