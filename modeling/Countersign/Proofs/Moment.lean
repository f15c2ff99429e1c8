import Countersign.Moment
import Countersign.Proofs.Text.Numeral
import Mathlib.Data.List.TakeWhile

/-! A moment that there is comes back when its text is read, and only such moments are read. -/

namespace Countersign.Moment

/-- Whether there is such a time of such a day, in a year of four digits. -/
structure IsValid (m : Moment) : Prop where
  year : m.year ≤ 9999
  month : 1 ≤ m.month ∧ m.month ≤ 12
  day : 1 ≤ m.day ∧ m.day ≤ daysInMonth m.year m.month
  hour : m.hour ≤ 23
  minute : m.minute ≤ 59
  second : m.second ≤ 59
  nano : m.nano < 1000000000
  offset : m.offset.natAbs < 1440

theorem isValid_epoch : epoch.IsValid := by
  constructor <;> decide

/-! ### Digits -/

theorem digit?_of_isDecimal {c : Char} (h : Text.isDecimal c = true) :
    digit? c = some (c.toNat - '0'.toNat) := by
  rw [digit?, if_pos h]

theorem lt_ten_of_digit? {c : Char} {n : Nat} (h : digit? c = some n) : n < 10 := by
  unfold digit? at h
  split at h
  · rename_i hc
    have hhigh : c ≤ '9' := by
      simp only [Text.isDecimal, decide_eq_true_eq] at hc
      exact hc.2
    have hle : c.toNat ≤ 57 := hhigh
    have hn : c.toNat - 48 = n := Option.some.inj h
    omega
  · simp at h

theorem le_of_twoDigits? {s rest : List Char} {n : Nat} (h : twoDigits? s = some (n, rest)) :
    n ≤ 99 := by
  match s with
  | [] => exact nomatch h
  | [_] => exact nomatch h
  | a :: b :: s =>
    simp only [twoDigits?, Option.bind_eq_bind, Option.bind_eq_some_iff, Option.pure_def,
      Option.some.injEq, Prod.mk.injEq] at h
    obtain ⟨x, hx, y, hy, rfl, _⟩ := h
    have hx' := lt_ten_of_digit? hx
    have hy' := lt_ten_of_digit? hy
    omega

theorem twoDigits?_append {s : List Char} (hl : s.length = 2)
    (hd : ∀ c ∈ s, Text.isDecimal c = true) (rest : List Char) :
    twoDigits? (s ++ rest) = some (Text.decimalFrom 0 s, rest) := by
  match s, hl with
  | [a, b], _ =>
    have ha := digit?_of_isDecimal (hd a (by simp))
    have hb := digit?_of_isDecimal (hd b (by simp))
    rw [Text.decimalFrom_cons, Text.decimalFrom_cons, Text.decimalFrom_nil]
    simp only [List.cons_append, List.nil_append, twoDigits?, ha, hb, Option.bind_eq_bind,
      Option.bind_some, Option.pure_def, Nat.mul_zero, Nat.zero_add]

theorem twoDigits?_decimalPadded {n : Nat} (h : n < 100) (rest : List Char) :
    twoDigits? (Text.decimalPadded 2 n ++ rest) = some (n, rest) := by
  have hl : (Text.decimalPadded 2 n).length = 2 := Text.length_decimalPadded (by omega) (by omega)
  rw [twoDigits?_append hl (fun c hc => Text.isDecimal_of_mem_decimalPadded hc),
    Text.decimalFrom_decimalPadded]

/-- Four digits are read two at a time. -/
theorem exists_fourDigits {n : Nat} (h : n < 10000) (rest : List Char) :
    ∃ high low next, twoDigits? (Text.decimalPadded 4 n ++ rest) = some (high, next) ∧
      twoDigits? next = some (low, rest) ∧ 100 * high + low = n := by
  have hl : (Text.decimalPadded 4 n).length = 4 := Text.length_decimalPadded (by omega) (by omega)
  have hd : ∀ c ∈ Text.decimalPadded 4 n, Text.isDecimal c = true := fun c hc =>
    Text.isDecimal_of_mem_decimalPadded hc
  generalize hs : Text.decimalPadded 4 n = s at hl hd
  have hval : Text.decimalFrom 0 s = n := by rw [← hs, Text.decimalFrom_decimalPadded]
  have hsplit : s = s.take 2 ++ s.drop 2 := (List.take_append_drop 2 s).symm
  have hfirst : (s.take 2).length = 2 := by simp [hl]
  have hsecond : (s.drop 2).length = 2 := by simp [hl]
  refine ⟨Text.decimalFrom 0 (s.take 2), Text.decimalFrom 0 (s.drop 2), s.drop 2 ++ rest,
    ?_, ?_, ?_⟩
  · have hread := twoDigits?_append hfirst (fun c hc => hd c (List.mem_of_mem_take hc))
      (s.drop 2 ++ rest)
    rw [← List.append_assoc, ← hsplit] at hread
    exact hread
  · exact twoDigits?_append hsecond (fun c hc => hd c (List.mem_of_mem_drop hc)) rest
  · rw [hsplit, Text.decimalFrom_append, Text.decimalFrom_eq_ofDigitChars _ (s.drop 2),
      Nat.ofDigitChars_eq_ofDigitChars_zero, hsecond, ← Text.decimalFrom_eq_ofDigitChars] at hval
    exact hval

/-! ### Fractions and offsets -/

/-- Digits without the zeros at their end, and how many zeros those are. -/
theorem exists_zeros (s : List Char) :
    ∃ k, s = (s.reverse.dropWhile (· = '0')).reverse ++ List.replicate k '0' := by
  refine ⟨(s.reverse.takeWhile (· = '0')).length, ?_⟩
  have hall : ∀ c ∈ s.reverse.takeWhile (· = '0'), c = '0' := by
    intro c hc
    simpa using List.mem_takeWhile_imp hc
  have hrep := List.eq_replicate_of_mem hall
  have hsplit := congrArg List.reverse
    (List.takeWhile_append_dropWhile (p := (· = '0')) (l := s.reverse))
  rw [List.reverse_append, List.reverse_reverse, hrep, List.reverse_replicate] at hsplit
  exact hsplit.symm

theorem fraction?_fractionText {nano : Nat} (h : nano < 1000000000) {rest : List Char}
    (hr : ∀ c ∈ rest.head?, Text.isDecimal c = false ∧ c ≠ '.') :
    fraction? (fractionText nano ++ rest) = some (nano, rest) := by
  by_cases hz : nano = 0
  · subst hz
    cases rest with
    | nil => rfl
    | cons c rest =>
      have hc := (hr c rfl).2
      simp only [fractionText, if_true, List.nil_append]
      rw [fraction?]
      intro digits hd
      exact hc (List.cons.inj hd).1
  · -- the zeros that are not written come back as the power of ten
    obtain ⟨k, hk⟩ := exists_zeros (Text.decimalPadded 9 nano)
    generalize ht : ((Text.decimalPadded 9 nano).reverse.dropWhile (· = '0')).reverse = t at hk
    have hl : (Text.decimalPadded 9 nano).length = 9 :=
      Text.length_decimalPadded (by omega) (by omega)
    have hval := Text.decimalFrom_decimalPadded 9 nano
    have hd : ∀ c ∈ t, Text.isDecimal c = true := fun c hc =>
      Text.isDecimal_of_mem_decimalPadded (by rw [hk]; exact List.mem_append_left _ hc)
    rw [hk, Text.decimalFrom_append, Text.decimalFrom_zeros] at hval
    rw [hk, List.length_append, List.length_replicate] at hl
    have hne : t ≠ [] := by
      rintro rfl
      rw [Text.decimalFrom_nil, Nat.mul_zero] at hval
      exact hz hval.symm
    have hstop : rest.takeWhile Text.isDecimal = [] ∧ rest.dropWhile Text.isDecimal = rest := by
      cases rest with
      | nil => exact ⟨rfl, rfl⟩
      | cons c rest => simp [(hr c rfl).1]
    have htake : t.take 9 = t := List.take_of_length_le (by omega)
    have hpow : Nat.pow 10 (9 - t.length) = 10 ^ k := by
      show 10 ^ (9 - t.length) = 10 ^ k
      rw [show 9 - t.length = k by omega]
    rw [fractionText, if_neg hz, ht, List.cons_append]
    simp only [fraction?, List.takeWhile_append_of_pos hd, List.dropWhile_append_of_pos hd,
      hstop.1, hstop.2, List.append_nil, htake, hpow, List.isEmpty_iff, hne, if_false,
      Nat.mul_comm, hval]

theorem lt_of_fraction? {s rest : List Char} {nano : Nat} (h : fraction? s = some (nano, rest)) :
    nano < 1000000000 := by
  unfold fraction? at h
  split at h
  · rename_i digits
    simp only at h
    split at h
    · exact nomatch h
    · simp only [Option.some.injEq, Prod.mk.injEq] at h
      generalize hk : (digits.takeWhile Text.isDecimal).take 9 = kept at h
      have hlen : kept.length ≤ 9 := by
        rw [← hk]
        exact List.length_take_le 9 _
      have hd : ∀ c ∈ kept, Text.isDecimal c = true := by
        intro c hc
        rw [← hk] at hc
        exact List.mem_takeWhile_imp (List.mem_of_mem_take hc)
      have hlt := Text.decimalFrom_lt hd 0
      have hpos : 0 < 10 ^ (9 - kept.length) := Nat.pow_pos (by omega)
      have hmul := Nat.mul_lt_mul_of_pos_right hlt hpos
      have hnine : kept.length + (9 - kept.length) = 9 := by omega
      rw [Nat.zero_add, Nat.mul_one, ← Nat.pow_add, hnine] at hmul
      rw [← h.1]
      exact hmul
  · simp only [Option.some.injEq, Prod.mk.injEq] at h
    omega

theorem natAbs_lt_of_offset? {s : List Char} {offset : Int} (h : offset? s = some offset) :
    offset.natAbs < 1440 := by
  unfold offset? at h
  split at h
  · obtain rfl : 0 = offset := by simpa using h
    decide
  · obtain rfl : 0 = offset := by simpa using h
    decide
  · simp only [Option.bind_eq_bind, Option.bind_eq_some_iff, Prod.exists] at h
    obtain ⟨hours, _, _, _, _, minutes, rest, _, h⟩ := h
    simp only [Bool.or_eq_true, Bool.not_eq_true', decide_eq_true_eq] at h
    split at h
    · exact nomatch h
    · split at h
      · obtain rfl : 60 * (hours : Int) + minutes = offset := by simpa using h
        omega
      · split at h
        · obtain rfl : -(60 * (hours : Int) + minutes) = offset := by simpa using h
          omega
        · exact nomatch h
  · exact nomatch h

theorem offset?_signed {hours minutes : Nat} (hh : hours ≤ 23) (hm : minutes ≤ 59) (sign : Char) :
    offset? (sign :: (Text.decimalPadded 2 hours ++ ':' :: Text.decimalPadded 2 minutes)) =
      if sign = '+' then some (60 * (hours : Int) + minutes)
      else if sign = '-' then some (-(60 * (hours : Int) + minutes))
      else none := by
  have hhours := twoDigits?_decimalPadded (n := hours) (by omega)
    (':' :: Text.decimalPadded 2 minutes)
  have hminutes := twoDigits?_decimalPadded (n := minutes) (by omega) []
  rw [List.append_nil] at hminutes
  have hfirst : ¬ 23 < hours := by omega
  have hsecond : ¬ 59 < minutes := by omega
  rw [offset?]
  · simp [hhours, hminutes, after?, hfirst, hsecond]
  · simp
  · simp

theorem offset?_offsetText {offset : Int} (h : offset.natAbs < 1440) :
    offset? (offsetText offset) = some offset := by
  unfold offsetText
  split
  · rename_i hz
    rw [hz]
    rfl
  · have hvalue : (offset.natAbs : Int) =
        60 * (offset.natAbs / 60 : Nat) + (offset.natAbs % 60 : Nat) := by
      omega
    rw [List.cons_append, offset?_signed (by omega) (by omega), ← hvalue]
    split
    · simp only [show ¬ '-' = '+' by decide, if_false, if_true, Option.some.injEq]
      omega
    · simp only [if_true, Option.some.injEq]
      omega

theorem head_offsetText (offset : Int) :
    ∀ c ∈ (offsetText offset).head?, Text.isDecimal c = false ∧ c ≠ '.' := by
  intro c hc
  unfold offsetText at hc
  split at hc
  · obtain rfl : 'Z' = c := by simpa using hc
    decide
  · split at hc
    · obtain rfl : '-' = c := by simpa using hc
      decide
    · obtain rfl : '+' = c := by simpa using hc
      decide

/-! ### Whole texts -/

theorem after?_cons (c : Char) (rest : List Char) : after? c (c :: rest) = some rest := by
  simp [after?]

theorem bind_of_eq_some {α β : Type} {x : Option α} {f : α → Option β} {a : α} {b : β}
    (h : x = some a) (hf : f a = some b) : (x >>= f) = some b := by
  rw [h]
  exact hf

theorem parse?_text {m : Moment} (h : m.IsValid) : parse? m.text = some m := by
  obtain ⟨hyear, hmonth, hday, hhour, hminute, hsecond, hnano, hoffset⟩ := h
  have hdays : m.day ≤ 31 := by
    have hle : daysInMonth m.year m.month ≤ 31 := by
      unfold daysInMonth
      split
      · split <;> omega
      · split <;> omega
    omega
  let tail := fractionText m.nano ++ offsetText m.offset
  let clock := Text.decimalPadded 2 m.hour ++ ':' :: (Text.decimalPadded 2 m.minute ++
    ':' :: (Text.decimalPadded 2 m.second ++ tail))
  obtain ⟨century, years, next, hc, hy, hsum⟩ := exists_fourDigits (n := m.year) (by omega)
    ('-' :: (Text.decimalPadded 2 m.month ++ '-' :: (Text.decimalPadded 2 m.day ++ 'T' :: clock)))
  have htext : m.text.toList = Text.decimalPadded 4 m.year ++ '-' ::
      (Text.decimalPadded 2 m.month ++ '-' :: (Text.decimalPadded 2 m.day ++ 'T' :: clock)) := by
    simp [text, clock, tail]
  have hfraction : fraction? tail = some (m.nano, offsetText m.offset) :=
    fraction?_fractionText hnano (head_offsetText m.offset)
  have hT : afterSeparator? ('T' :: clock) = some clock := rfl
  have hrange : ¬ (m.month = 0 ∨ 12 < m.month ∨ m.day = 0 ∨ daysInMonth m.year m.month < m.day ∨
      23 < m.hour ∨ 59 < m.minute) := by omega
  have hsixty : ¬ m.second = 60 := by omega
  have hlast : ¬ 59 < m.second := by omega
  unfold parse?
  rw [htext]
  refine bind_of_eq_some hc (bind_of_eq_some hy ?_)
  refine bind_of_eq_some (after?_cons '-' _) ?_
  refine bind_of_eq_some (twoDigits?_decimalPadded (show m.month < 100 by omega) _) ?_
  refine bind_of_eq_some (after?_cons '-' _) ?_
  refine bind_of_eq_some (twoDigits?_decimalPadded (show m.day < 100 by omega) _) ?_
  refine bind_of_eq_some hT ?_
  refine bind_of_eq_some (twoDigits?_decimalPadded (show m.hour < 100 by omega) _) ?_
  refine bind_of_eq_some (after?_cons ':' _) ?_
  refine bind_of_eq_some (twoDigits?_decimalPadded (show m.minute < 100 by omega) _) ?_
  refine bind_of_eq_some (after?_cons ':' _) ?_
  refine bind_of_eq_some (twoDigits?_decimalPadded (show m.second < 100 by omega) _) ?_
  refine bind_of_eq_some hfraction ?_
  refine bind_of_eq_some (offset?_offsetText hoffset) ?_
  simp only [hsum, if_neg hrange, if_neg hsixty, if_neg hlast]

theorem isValid_of_parse? {s : String} {m : Moment} (h : parse? s = some m) : m.IsValid := by
  unfold parse? at h
  obtain ⟨⟨century, _⟩, hc, h⟩ := Option.bind_eq_some_iff.mp h
  obtain ⟨⟨years, _⟩, hy, h⟩ := Option.bind_eq_some_iff.mp h
  obtain ⟨_, _, h⟩ := Option.bind_eq_some_iff.mp h
  obtain ⟨⟨month, _⟩, _, h⟩ := Option.bind_eq_some_iff.mp h
  obtain ⟨_, _, h⟩ := Option.bind_eq_some_iff.mp h
  obtain ⟨⟨day, _⟩, _, h⟩ := Option.bind_eq_some_iff.mp h
  obtain ⟨_, _, h⟩ := Option.bind_eq_some_iff.mp h
  obtain ⟨⟨hour, _⟩, _, h⟩ := Option.bind_eq_some_iff.mp h
  obtain ⟨_, _, h⟩ := Option.bind_eq_some_iff.mp h
  obtain ⟨⟨minute, _⟩, _, h⟩ := Option.bind_eq_some_iff.mp h
  obtain ⟨_, _, h⟩ := Option.bind_eq_some_iff.mp h
  obtain ⟨⟨second, _⟩, _, h⟩ := Option.bind_eq_some_iff.mp h
  obtain ⟨⟨nano, _⟩, hn, h⟩ := Option.bind_eq_some_iff.mp h
  obtain ⟨offset, ho, h⟩ := Option.bind_eq_some_iff.mp h
  have hcentury := le_of_twoDigits? hc
  have hyears := le_of_twoDigits? hy
  have hnano := lt_of_fraction? hn
  have hoffset := natAbs_lt_of_offset? ho
  simp only at h
  split at h
  · exact nomatch h
  · split at h
    · split at h
      · obtain rfl := Option.some.inj h
        constructor <;> first | assumption | (simp only; omega)
      · exact nomatch h
    · split at h
      · exact nomatch h
      · obtain rfl := Option.some.inj h
        constructor <;> first | assumption | (simp only; omega)

end Countersign.Moment
