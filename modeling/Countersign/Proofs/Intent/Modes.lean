import Countersign.Proofs.Intent.Preimage

/-! Digests with and without a domain, and with and without the selector in it. Nothing that is
hashed says of which of the three kinds it is: two kinds are told apart by their lengths for one
intent, and for two intents by words that stand in one layout where they cannot in the other. -/

namespace Countersign

theorem append_eq_append_iff_of_length {a b s t : Bytes} (h : a.length = b.length) :
    a ++ s = b ++ t ↔ a = b ∧ s = t := by
  constructor
  · intro he
    exact List.append_inj he h
  · rintro ⟨rfl, rfl⟩
    rfl

theorem Amount.word_eq_word_iff {a b : Amount} : word a.toNat = word b.toNat ↔ a = b :=
  ⟨Amount.eq_of_word, fun h => by rw [h]⟩

theorem version_word_eq_word_iff {v w : UInt32} : word v.toNat = word w.toNat ↔ v = w :=
  ⟨version_eq_of_word, fun h => by rw [h]⟩

namespace Intent

/-- The data, filled up to whole words. -/
def filledData (intent : Intent) : Bytes := intent.data ++ zeros (padding intent.data.length)

/-- The words of the first intent are those of a domain without its selector and, as far as they
are data, of the second intent. -/
structure SpellsScoped (I J : Intent) (d : Domain) : Prop where
  chain : I.target.padded = word d.chain.toNat
  contract : word I.value.toNat = d.contract.padded
  version : d.version = 0x60
  target : word I.data.length = J.target.padded
  data : I.filledData = word J.value.toNat ++ (word 0x60 ++ J.tail)

/-- The words of the first intent are those of a domain with its selector, and its data are all
that is laid out for the second intent. -/
structure SpellsSelected (I J : Intent) (d : Domain) : Prop where
  selector : I.target.padded = d.selector.padded
  chain : I.value = d.chain
  contract : word 0x60 = d.contract.padded
  version : word I.data.length = word d.version.toNat
  data : I.filledData = J.arguments

/-- A domain without its selector and the first intent have the words of a domain with its selector
and the second intent. -/
structure SpellsAcross (c : Domain) (I : Intent) (d : Domain) (J : Intent) : Prop where
  selector : word c.chain.toNat = d.selector.padded
  chain : c.contract.padded = word d.chain.toNat
  contract : word c.version.toNat = d.contract.padded
  version : I.target.padded = word d.version.toNat
  target : word I.value.toNat = J.target.padded
  value : J.value = 0x60
  length : word I.data.length = word 0x60
  data : I.filledData = J.tail

variable {I J : Intent} {c d : Domain}

theorem preimage_of_selector (h : d.bindsSelector = true) (J : Intent) :
    J.preimage (some d) = d.selector.padded ++ (word d.chain.toNat ++ (d.contract.padded ++
      (word d.version.toNat ++ J.arguments))) := by
  simp only [preimage, Domain.encode_of_selector h, Domain.scope, List.append_assoc]

theorem preimage_of_no_selector (h : d.bindsSelector = false) (J : Intent) :
    J.preimage (some d) = word d.chain.toNat ++ (d.contract.padded ++
      (word d.version.toNat ++ J.arguments)) := by
  simp only [preimage, Domain.encode_of_no_selector h, Domain.scope, List.append_assoc]

theorem arguments_eq_filled (I : Intent) :
    I.arguments = I.target.padded ++ (word I.value.toNat ++ (word 0x60 ++
      (word I.data.length ++ I.filledData))) := by
  rw [arguments_eq, tail, filledData]

theorem preimage_none_eq_iff_spellsScoped (h : d.bindsSelector = false) :
    I.preimage none = J.preimage (some d) ↔ I.SpellsScoped J d := by
  have hversion : word 0x60 = word d.version.toNat ↔ d.version = 0x60 := by
    rw [eq_comm]
    exact version_word_eq_word_iff (w := 0x60)
  rw [preimage_of_no_selector h, preimage, arguments_eq_filled I, arguments_eq J]
  repeat rw [append_eq_append_iff_of_length (by simp)]
  rw [hversion]
  exact ⟨fun ⟨h1, h2, h3, h4, h5⟩ => ⟨h1, h2, h3, h4, h5⟩,
    fun ⟨h1, h2, h3, h4, h5⟩ => ⟨h1, h2, h3, h4, h5⟩⟩

theorem preimage_none_eq_iff_spellsSelected (h : d.bindsSelector = true) :
    I.preimage none = J.preimage (some d) ↔ I.SpellsSelected J d := by
  rw [preimage_of_selector h, preimage, arguments_eq_filled I]
  repeat rw [append_eq_append_iff_of_length (by simp)]
  rw [Amount.word_eq_word_iff]
  exact ⟨fun ⟨h1, h2, h3, h4, h5⟩ => ⟨h1, h2, h3, h4, h5⟩,
    fun ⟨h1, h2, h3, h4, h5⟩ => ⟨h1, h2, h3, h4, h5⟩⟩

theorem preimage_some_eq_iff_spellsAcross (hc : c.bindsSelector = false)
    (hd : d.bindsSelector = true) :
    I.preimage (some c) = J.preimage (some d) ↔ SpellsAcross c I d J := by
  have hvalue : word 0x60 = word J.value.toNat ↔ J.value = 0x60 := by
    rw [eq_comm]
    exact Amount.word_eq_word_iff (b := 0x60)
  rw [preimage_of_no_selector hc, preimage_of_selector hd, arguments_eq_filled I, arguments_eq J]
  repeat rw [append_eq_append_iff_of_length (by simp)]
  rw [hvalue]
  exact ⟨fun ⟨h1, h2, h3, h4, h5, h6, h7, h8⟩ => ⟨h1, h2, h3, h4, h5, h6, h7, h8⟩,
    fun ⟨h1, h2, h3, h4, h5, h6, h7, h8⟩ => ⟨h1, h2, h3, h4, h5, h6, h7, h8⟩⟩

/-! ### Where the modes are apart -/

theorem length_preimage (I : Intent) (c : Option Domain) :
    (I.preimage c).length =
      (match c.map (·.bindsSelector) with | none => 0 | some false => 96 | some true => 128) +
        I.arguments.length := by
  cases c with
  | none => simp [preimage]
  | some d =>
    cases hd : d.bindsSelector with
    | false => simp [preimage, Domain.encode_of_no_selector hd, hd]
    | true =>
      simp only [preimage, Domain.encode_of_selector hd, Option.map_some, hd, List.length_append,
        Selector.length_padded, Domain.length_scope]

/-- One intent is hashed as many bytes as its mode says. -/
theorem preimage_ne_of_mode_ne (I : Intent) {c d : Option Domain}
    (h : c.map (·.bindsSelector) ≠ d.map (·.bindsSelector)) : I.preimage c ≠ I.preimage d := by
  intro he
  have hlength := congrArg List.length he
  rw [length_preimage, length_preimage] at hlength
  apply h
  generalize c.map (·.bindsSelector) = m at *
  generalize d.map (·.bindsSelector) = n at *
  rcases m with _ | _ | _ <;> rcases n with _ | _ | _ <;> simp at hlength ⊢

end Intent

/-- No word of the domain stands where another layout has it: its selector is not zero, or it has
none, a version that is not 96 and a chain below 2^224. -/
structure Domain.IsApart (d : Domain) : Prop where
  selector : d.bindsSelector = true → d.selector.bytes ≠ zeros 4
  version : d.bindsSelector = false → d.version ≠ 0x60
  chain : d.bindsSelector = false → d.chain.toNat < 2 ^ 224

namespace Intent

variable {I J : Intent} {c d : Domain}

theorem selector_of_padded {s : Selector} {rest : Bytes} (h : zeros 4 ++ rest = s.padded) :
    s.bytes = zeros 4 :=
  (List.append_inj h (by simp [s.length_bytes])).1.symm

theorem SpellsSelected.selector_eq (h : I.SpellsSelected J d) : d.selector.bytes = zeros 4 := by
  have hs := h.selector
  rw [Address.padded, show 12 = 4 + 8 from rfl, zeros_add, List.append_assoc] at hs
  exact selector_of_padded hs

theorem SpellsAcross.selector_eq (h : SpellsAcross c I d J) (hc : c.chain.toNat < 2 ^ 224) :
    d.selector.bytes = zeros 4 := by
  have hs := h.selector
  rw [word_of_lt hc] at hs
  exact selector_of_padded hs

theorem preimage_none_ne (hd : d.IsApart) : I.preimage none ≠ J.preimage (some d) := by
  intro h
  cases hb : d.bindsSelector with
  | false => exact hd.version hb ((preimage_none_eq_iff_spellsScoped hb).mp h).version
  | true => exact hd.selector hb ((preimage_none_eq_iff_spellsSelected hb).mp h).selector_eq

theorem preimage_ne_of_isApart {c d : Option Domain} (hc : ∀ x ∈ c, x.IsApart)
    (hd : ∀ x ∈ d, x.IsApart) (h : c.map (·.bindsSelector) ≠ d.map (·.bindsSelector)) :
    I.preimage c ≠ J.preimage d := by
  cases c with
  | none =>
    cases d with
    | none => exact absurd rfl h
    | some y => exact preimage_none_ne (hd y rfl)
  | some x =>
    cases d with
    | none => exact (preimage_none_ne (hc x rfl)).symm
    | some y =>
      have hx := hc x rfl
      have hy := hd y rfl
      intro he
      cases hbx : x.bindsSelector with
      | false =>
        have hby : y.bindsSelector = true := by simpa [hbx] using h
        have hs := (preimage_some_eq_iff_spellsAcross hbx hby).mp he
        exact hy.selector hby (hs.selector_eq (hx.chain hbx))
      | true =>
        have hby : y.bindsSelector = false := by simpa [hbx] using h
        have hs := (preimage_some_eq_iff_spellsAcross hby hbx).mp he.symm
        exact hx.selector hbx (hs.selector_eq (hy.chain hby))

/-- The three modes of a digest. What is hashed in two of them is never the same for one intent,
nor for any two intents in domains whose words stand apart; and where it is the same, the words
of the one layout spell the fields of the other. -/
theorem modes_meet_only_in_spelling :
    (∀ (I : Intent) (c d : Option Domain), c.map (·.bindsSelector) ≠ d.map (·.bindsSelector) →
      I.preimage c ≠ I.preimage d) ∧
    (∀ (I J : Intent) (c d : Option Domain), c.map (·.bindsSelector) ≠ d.map (·.bindsSelector) →
      (∀ x ∈ c, x.IsApart) → (∀ x ∈ d, x.IsApart) → I.preimage c ≠ J.preimage d) ∧
    (∀ (I J : Intent) (d : Domain), d.bindsSelector = false →
      (I.preimage none = J.preimage (some d) ↔ I.SpellsScoped J d)) ∧
    (∀ (I J : Intent) (d : Domain), d.bindsSelector = true →
      (I.preimage none = J.preimage (some d) ↔ I.SpellsSelected J d)) ∧
    ∀ (I J : Intent) (c d : Domain), c.bindsSelector = false → d.bindsSelector = true →
      (I.preimage (some c) = J.preimage (some d) ↔ SpellsAcross c I d J) := by
  refine ⟨?_, ?_, ?_, ?_, ?_⟩
  · intro I c d h
    exact I.preimage_ne_of_mode_ne h
  · intro I J c d h hc hd
    exact preimage_ne_of_isApart hc hd h
  · intro I J d h
    exact preimage_none_eq_iff_spellsScoped h
  · intro I J d h
    exact preimage_none_eq_iff_spellsSelected h
  · intro I J c d hc hd
    exact preimage_some_eq_iff_spellsAcross hc hd

/-- An intent has the digest of another one in a domain without selector, if its data are the
words of that one; so it is with a selector of zeros, and for two domains of which only one has
its selector. -/
theorem modes_meet :
    (⟨Address.ofNumber 1, 2, word 7 ++ word 0x60 ++ word 0⟩ : Intent).preimage none =
      (⟨Address.ofNumber 0x60, 7, []⟩ : Intent).preimage
        (some ⟨1, Address.ofNumber 2, 0x60, Selector.execute, false⟩) ∧
    (⟨Address.ofNumber 0, 1, word 5 ++ word 7 ++ word 0x60 ++ word 0⟩ : Intent).preimage none =
      (⟨Address.ofNumber 5, 7, []⟩ : Intent).preimage
        (some ⟨1, Address.ofNumber 0x60, 128, ⟨zeros 4, length_zeros 4⟩, true⟩) ∧
    (⟨Address.ofNumber 1, 5, word 64 ++ zeros 64⟩ : Intent).preimage
        (some ⟨0x01020304 <<< 224, Address.ofNumber 1, 9, Selector.execute, false⟩) =
      (⟨Address.ofNumber 5, 0x60, zeros 64⟩ : Intent).preimage
        (some ⟨1, Address.ofNumber 9, 1, ⟨[1, 2, 3, 4], rfl⟩, true⟩) := by
  decide +kernel

/-- In the default domain of a chain, the same intent is told from the one without a domain. -/
theorem default_domain_told :
    (⟨Address.ofNumber 1, 2, word 7 ++ word 0x60 ++ word 0⟩ : Intent).preimage none ≠
      (⟨Address.ofNumber 0x60, 7, []⟩ : Intent).preimage
        (some ⟨1, Address.ofNumber 2, 0x60, Selector.execute, true⟩) := by
  have hselector : Selector.execute.bytes ≠ zeros 4 := by decide +kernel
  refine modes_meet_only_in_spelling.2.1 _ _ _ _ (by simp) (by simp) ?_
  intro x hx
  obtain rfl := Option.some.inj hx
  exact ⟨fun _ => hselector, nofun, nofun⟩

end Intent
end Countersign
