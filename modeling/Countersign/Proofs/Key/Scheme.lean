import Countersign.Key.Scheme
import Countersign.Proofs.Except

/-! What the checks of the signature scheme say about lengths, and what is expected of the scheme
itself. -/

namespace Countersign.Scheme

/-- Whatever is signed with the secret key can be verified with the public key, if this is the one
that is derived from it. -/
def KeyPair.SignsValidly (keys : KeyPair) : Prop :=
  ∀ message randomness signature,
    publicKeyOf keys.parameterSet keys.secretKey = .ok keys.publicKey →
    sign keys.parameterSet keys.secretKey message randomness = .ok signature →
      verify keys.parameterSet keys.publicKey message signature = true

theorem level_eq_ok {parameterSet : UInt8} {l : Lattice.Level} (h : level parameterSet = .ok l) :
    level? parameterSet = some l := by
  unfold level at h
  split at h
  · cases h
    assumption
  · exact nomatch h

theorem level_of_level? {parameterSet : UInt8} {l : Lattice.Level}
    (h : level? parameterSet = some l) : level parameterSet = .ok l := by
  rw [level, h]

theorem checkLength_self (what : String) (parameterSet : UInt8) (length : Nat) :
    checkLength what parameterSet length length = .ok () := if_pos rfl

theorem of_checkLength {what : String} {parameterSet : UInt8} {expected actual : Nat} {u : Unit}
    (h : checkLength what parameterSet expected actual = .ok u) : actual = expected := by
  unfold checkLength at h
  split at h
  · exact Eq.symm ‹_›
  · exact nomatch h

theorem sign_eq_ok {parameterSet : UInt8} {secretKey message randomness signature : Bytes}
    (h : sign parameterSet secretKey message randomness = .ok signature) :
    ∃ l, level? parameterSet = some l ∧
      Lattice.sign? l secretKey message randomness = some signature := by
  unfold sign at h
  obtain ⟨l, hl, h⟩ := exists_of_bind_eq_ok h
  obtain ⟨_, _, h⟩ := exists_of_bind_eq_ok h
  split at h
  · obtain rfl := Except.ok.inj h
    exact ⟨l, level_eq_ok hl, ‹_›⟩
  · cases h

theorem length_of_verify {parameterSet : UInt8} {l : Lattice.Level}
    (hl : level? parameterSet = some l) {publicKey message signature : Bytes}
    (h : verify parameterSet publicKey message signature = true) :
    signature.length = l.signatureBytes := by
  simp only [verify, hl, Lattice.verify] at h
  split at h
  · exact absurd h Bool.false_ne_true
  · rename_i hlengths
    simpa using (not_or.mp hlengths).2

/-- Keys and signatures of all strengths are short, and no signature is empty. -/
theorem length_le (l : Lattice.Level) : l.publicKeyBytes ≤ 4096 ∧
    0 < l.signatureBytes ∧ l.signatureBytes ≤ 8192 := by
  cases l <;> decide

theorem ne_nil_of_verify {parameterSet : UInt8} {publicKey message signature : Bytes}
    (h : verify parameterSet publicKey message signature = true) : signature ≠ [] := by
  cases hl : level? parameterSet with
  | none =>
    rw [verify, hl] at h
    exact absurd h Bool.false_ne_true
  | some l =>
    have hlength := length_of_verify hl h
    have hpos := (length_le l).2.1
    exact List.ne_nil_of_length_pos (by omega)

end Countersign.Scheme
