import Countersign.Envelope.Binary
import Countersign.Proofs.Envelope.Fields
import Countersign.Proofs.Except

/-! Reading the binary form of an envelope. The entries of a map are taken in one after the other;
what comes of them is what the entry under each name says, wherever it stands. -/

namespace Countersign

/-! ### Entries one after the other -/

namespace Cbor

/-- The entries of a map that have a text for their key. -/
def named : List (Cbor × Cbor) → List (String × Cbor)
  | [] => []
  | (.text key, item) :: rest => (key, item) :: named rest
  | _ :: rest => named rest

theorem named_text (entries : List (String × Cbor)) :
    named (entries.map fun e => (.text e.1, e.2)) = entries := by
  induction entries with
  | nil => rfl
  | cons e rest ih => exact congrArg (e :: ·) ih

theorem named_cons_of_ne {key item : Cbor} (h : ∀ s, key ≠ .text s) (rest : List (Cbor × Cbor)) :
    named ((key, item) :: rest) = named rest := by
  cases key with
  | text s => exact absurd rfl (h s)
  | _ => rfl

end Cbor

/-- A reader that takes in the entries of a map one after the other, passes over those without a
text for their key, and refuses a text key that it has `seen`. -/
structure TakesIn {σ : Type} (set : σ → String → Cbor → Except Envelope.Fault σ)
    (take : List String → σ → List (Cbor × Cbor) → Except Envelope.Fault σ) : Prop where
  nil : ∀ seen s, take seen s [] = .ok s
  refused : ∀ seen s key item rest, key ∈ seen →
    ∃ fault, take seen s ((.text key, item) :: rest) = .error fault
  taken : ∀ {seen s key item rest}, key ∉ seen →
    take seen s ((.text key, item) :: rest) =
      (set s key item).bind fun s => take (key :: seen) s rest
  passed : ∀ {seen s key item rest}, (∀ t, key ≠ .text t) →
    take seen s ((key, item) :: rest) = take seen s rest

/-- Where the effect of one entry is independent of those under other keys, so is that of all. -/
theorem TakesIn.eq_ok_iff {σ : Type} {set : σ → String → Cbor → Except Envelope.Fault σ}
    {take : List String → σ → List (Cbor × Cbor) → Except Envelope.Fault σ} (h : TakesIn set take)
    {Becomes : σ → List (String × Cbor) → σ → Prop}
    (hnil : ∀ {s after}, Becomes s [] after ↔ s = after)
    (hcons : ∀ {s after key item rest}, key ∉ rest.map Prod.fst →
      (Becomes s ((key, item) :: rest) after ↔
        ∃ next, set s key item = .ok next ∧ Becomes next rest after))
    {seen : List String} {s after : σ} {entries : List (Cbor × Cbor)} :
    take seen s entries = .ok after ↔
      (∀ key ∈ (Cbor.named entries).map Prod.fst, key ∉ seen) ∧
      ((Cbor.named entries).map Prod.fst).Nodup ∧ Becomes s (Cbor.named entries) after := by
  induction entries generalizing seen s with
  | nil => simp [h.nil, Cbor.named, hnil]
  | cons e rest ih =>
    obtain ⟨key, item⟩ := e
    by_cases hkey : ∃ t, key = .text t
    · obtain ⟨key, rfl⟩ := hkey
      have hnamed : Cbor.named ((.text key, item) :: rest) = (key, item) :: Cbor.named rest := rfl
      rw [hnamed, List.map_cons, List.nodup_cons]
      by_cases hseen : key ∈ seen
      · obtain ⟨fault, hf⟩ := h.refused seen s key item rest hseen
        rw [hf]
        refine iff_of_false (fun hno => nomatch hno) ?_
        exact fun hall => hall.1 key List.mem_cons_self hseen
      · rw [h.taken hseen, bind_eq_ok_iff]
        simp only [ih]
        constructor
        · rintro ⟨next, hset, hfresh, hdistinct, hbecomes⟩
          have hnot : key ∉ (Cbor.named rest).map Prod.fst := fun hk =>
            hfresh key hk List.mem_cons_self
          refine ⟨?_, ⟨hnot, hdistinct⟩, (hcons hnot).mpr ⟨next, hset, hbecomes⟩⟩
          intro other ho
          rcases List.mem_cons.mp ho with rfl | ho
          · exact hseen
          · exact fun hs => hfresh other ho (List.mem_cons_of_mem _ hs)
        · rintro ⟨hfresh, ⟨hnot, hdistinct⟩, hbecomes⟩
          obtain ⟨next, hset, hnext⟩ := (hcons hnot).mp hbecomes
          refine ⟨next, hset, ?_, hdistinct, hnext⟩
          intro other ho hs
          rcases List.mem_cons.mp hs with rfl | hs
          · exact hnot ho
          · exact hfresh other (List.mem_cons_of_mem _ ho) hs
    · have hother : ∀ t, key ≠ .text t := fun t ht => hkey ⟨t, ht⟩
      rw [h.passed hother, Cbor.named_cons_of_ne hother, ih]

namespace Metadata

theorem takesIn_setFields : TakesIn setField setFields where
  nil _ _ := rfl
  refused _ _ _ _ _ h := ⟨_, by rw [setFields, if_pos h]⟩
  taken h := by rw [setFields, if_neg h]
  passed {_ _ key _ _} h := by
    cases key with
    | text t => exact absurd rfl (h t)
    | _ => rfl

/-- How the binary form gives a text that may be `null`. -/
def binaryText? : Cbor → Option (Option String)
  | .null => some none
  | .text s => some (some s)
  | _ => none

theorem textOf_eq_ok_iff {key : String} {item : Cbor} {s : Option String} :
    textOf key item = .ok s ↔ binaryText? item = some s := by
  cases item <;> simp [textOf, binaryText?]

/-- Metadata after more entries have been taken in. -/
def Becomes (m : Metadata) (entries : List (String × Cbor)) (after : Metadata) : Prop :=
  entryOr entries "guardianId" m.guardianId binaryText? = some after.guardianId ∧
  entryOr entries "issuedAt" m.issuedAt binaryText? = some after.issuedAt ∧
  entryOr entries "note" m.note binaryText? = some after.note

theorem becomes_nil_iff {m after : Metadata} : m.Becomes [] after ↔ m = after := by
  cases m
  cases after
  simp [Becomes]

theorem becomes_cons_iff {m after : Metadata} {key : String} {item : Cbor}
    {rest : List (String × Cbor)} (h : key ∉ rest.map Prod.fst) :
    m.Becomes ((key, item) :: rest) after ↔
      ∃ next, m.setField key item = .ok next ∧ next.Becomes rest after := by
  unfold setField
  split_ifs with hg hi hn
  case neg => simp [Becomes, Ne.symm hg, Ne.symm hi, Ne.symm hn]
  all_goals
    subst key
    simp only [Becomes, entryOr_cons_self, ne_eq, String.reduceEq, not_false_eq_true,
      entryOr_cons_of_ne, entryOr_of_not_mem h, textOf_eq_ok_iff, Option.some.injEq,
      map_eq_ok_iff, exists_exists_and_eq_and]
    grind

theorem setFields_eq_ok_iff {entries : List (Cbor × Cbor)} {m : Metadata} :
    setFields [] {} entries = .ok m ↔
      ((Cbor.named entries).map Prod.fst).Nodup ∧
        m.IsReadFrom binaryText? (Cbor.named entries) := by
  rw [takesIn_setFields.eq_ok_iff becomes_nil_iff becomes_cons_iff]
  constructor
  · rintro ⟨_, hdistinct, hg, hi, hn⟩
    exact ⟨hdistinct, hg, hi, hn⟩
  · rintro ⟨hdistinct, hg, hi, hn⟩
    exact ⟨fun _ _ => List.not_mem_nil, hdistinct, hg, hi, hn⟩

end Metadata

namespace Envelope.Draft

theorem takesIn_setFields : TakesIn setField setFields where
  nil _ _ := rfl
  refused _ _ _ _ _ h := ⟨_, by rw [setFields, if_pos h]⟩
  taken h := by rw [setFields, if_neg h]
  passed {_ _ key _ _} h := by
    cases key with
    | text t => exact absurd rfl (h t)
    | _ => rfl

end Envelope.Draft

namespace Envelope

/-- How the binary form gives the fields. -/
def binary : FieldReaders Cbor where
  version item := (unsignedOf "version" item).toOption
  algorithm item := (textOf "algorithm" item).toOption
  parameterSet item := ((unsignedOf "parameterSet" item).bind setOf).toOption
  digest item := (digestOf item).toOption
  publicKey item := (bytesOf "publicKey" item).toOption
  signature item := (bytesOf "signature" item).toOption
  metadata item := (Metadata.ofCbor item).toOption

theorem checkLiterals_eq_ok_iff {version? : Option Nat} {algorithm? : Option String} {u : Unit} :
    checkLiterals version? algorithm? = .ok u ↔
      version? = some version ∧ algorithm? = some algorithm := by
  unfold checkLiterals
  split
  · simp
  · split <;> simp
  · split_ifs with ha hv <;> simp_all

namespace Draft

/-- A draft after more entries have been taken in. -/
def Becomes (d : Draft) (entries : List (String × Cbor)) (after : Draft) : Prop :=
  entryOr entries "version" d.version? (fun item => (binary.version item).map some) =
    some after.version? ∧
  entryOr entries "algorithm" d.algorithm? (fun item => (binary.algorithm item).map some) =
    some after.algorithm? ∧
  entryOr entries "parameterSet" d.parameterSet? (fun item => (binary.parameterSet item).map some) =
    some after.parameterSet? ∧
  entryOr entries "digest" d.digest binary.digest = some after.digest ∧
  entryOr entries "publicKey" d.publicKey binary.publicKey = some after.publicKey ∧
  entryOr entries "signature" d.signature binary.signature = some after.signature ∧
  entryOr entries "metadata" d.metadata binary.metadata = some after.metadata

theorem becomes_nil_iff {d after : Draft} : d.Becomes [] after ↔ d = after := by
  cases d
  cases after
  simp [Becomes]

theorem becomes_cons_iff {d after : Draft} {key : String} {item : Cbor}
    {rest : List (String × Cbor)} (h : key ∉ rest.map Prod.fst) :
    d.Becomes ((key, item) :: rest) after ↔
      ∃ next, d.setField key item = .ok next ∧ next.Becomes rest after := by
  unfold setField
  split_ifs with hv ha hp hd hk hs hm
  case neg =>
    simp [Becomes, Ne.symm hv, Ne.symm ha, Ne.symm hp, Ne.symm hd, Ne.symm hk, Ne.symm hs,
      Ne.symm hm]
  -- The other cases are alike: the entry decides on its own field, and the rest on all others.
  all_goals
    subst key
    simp only [Becomes, binary, entryOr_cons_self, ne_eq, String.reduceEq, not_false_eq_true,
      entryOr_cons_of_ne, entryOr_of_not_mem h, Option.map_eq_some_iff, toOption_eq_some_iff,
      Option.some.injEq, map_eq_ok_iff, exists_exists_and_eq_and]
    grind

theorem setFields_eq_ok_iff {entries : List (Cbor × Cbor)} {d : Draft} :
    setFields [] {} entries = .ok d ↔
      ((Cbor.named entries).map Prod.fst).Nodup ∧ Becomes {} (Cbor.named entries) d := by
  rw [takesIn_setFields.eq_ok_iff becomes_nil_iff becomes_cons_iff]
  simp

theorem finish_eq_ok_iff {d : Draft} {e : Envelope} :
    d.finish = .ok e ↔ d.version? = some version ∧ d.algorithm? = some algorithm ∧
      d.parameterSet? = some e.parameterSet ∧ d.digest = e.digest ∧ d.publicKey = e.publicKey ∧
      d.signature = e.signature ∧ d.metadata = e.metadata := by
  rw [finish, bind_eq_ok_iff]
  obtain ⟨version?, algorithm?, parameterSet?, digest, publicKey, signature, metadata⟩ := d
  cases parameterSet? with
  | none => simp
  | some n =>
    cases e
    simp [checkLiterals_eq_ok_iff, and_assoc]

end Draft

theorem ofCbor_eq_ok_iff {entries : List (Cbor × Cbor)} {e : Envelope} :
    ofCbor (.map entries) = .ok e ↔
      ((Cbor.named entries).map Prod.fst).Nodup ∧ e.IsReadFrom binary (Cbor.named entries) := by
  rw [ofCbor, bind_eq_ok_iff]
  simp only [Draft.setFields_eq_ok_iff, Draft.finish_eq_ok_iff]
  constructor
  · rintro ⟨d, ⟨hdistinct, hv, ha, hp, hd, hk, hs, hm⟩, hv', ha', hp', hd', hk', hs', hm'⟩
    exact ⟨hdistinct, entryOr_none_eq_some_some.mp (hv' ▸ hv),
      entryOr_none_eq_some_some.mp (ha' ▸ ha), entryOr_none_eq_some_some.mp (hp' ▸ hp),
      hd' ▸ hd, hk' ▸ hk, hs' ▸ hs, hm' ▸ hm⟩
  · rintro ⟨hdistinct, hv, ha, hp, hd, hk, hs, hm⟩
    let d : Draft := ⟨some version, some algorithm, some e.parameterSet, e.digest, e.publicKey,
      e.signature, e.metadata⟩
    have hd : Draft.Becomes {} (Cbor.named entries) d :=
      ⟨entryOr_none_eq_some_some.mpr hv, entryOr_none_eq_some_some.mpr ha,
        entryOr_none_eq_some_some.mpr hp, hd, hk, hs, hm⟩
    exact ⟨d, ⟨hdistinct, hd⟩, rfl, rfl, rfl, rfl, rfl, rfl, rfl⟩

end Envelope
end Countersign
