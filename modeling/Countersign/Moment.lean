import Countersign.Text.Numeral

/-! Points in time with their offset from UTC, and their texts, such as
`2026-10-19T12:00:00.5+02:00`. Moments are ordered by the instant they name. -/

namespace Countersign

structure Moment where
  year : Nat
  month : Nat
  day : Nat
  hour : Nat
  minute : Nat
  second : Nat
  nano : Nat
  offset : Int
  deriving DecidableEq, Repr

namespace Moment

def epoch : Moment := ⟨1970, 1, 1, 0, 0, 0, 0, 0⟩

def isLeapYear (year : Nat) : Bool := year % 4 == 0 && (year % 100 != 0 || year % 400 == 0)

def daysInMonth (year month : Nat) : Nat :=
  if month = 2 then (if isLeapYear year then 29 else 28)
  else if month = 4 ∨ month = 6 ∨ month = 9 ∨ month = 11 then 30
  else 31

/-- The number of a day, counted from the first day of the year zero. -/
def dayNumber (year month day : Nat) : Int :=
  let before := 365 * year + (year + 3) / 4 - (year + 99) / 100 + (year + 399) / 400
  before + (List.range (month - 1)).foldl (fun n m => n + daysInMonth year (m + 1)) 0 + day - 1

/-- Seconds from the start of the year zero in UTC. -/
def seconds (m : Moment) : Int :=
  dayNumber m.year m.month m.day * 86400 + m.hour * 3600 + m.minute * 60 + m.second - m.offset * 60

def instant (m : Moment) : Int := m.seconds * 1000000000 + m.nano

/-- Whether the next second in UTC is the first of a month. It lies in the month of the moment or
next to it, since offsets are shorter than a day. -/
def endsMonth (m : Moment) : Bool :=
  let next := m.seconds + 1
  let firstDay := dayNumber m.year m.month 1 * 86400
  next == firstDay || next == firstDay + daysInMonth m.year m.month * 86400

/-! ### Reading -/

def digit? (c : Char) : Option Nat := if Text.isDecimal c then some (c.toNat - '0'.toNat) else none

def twoDigits? : List Char → Option (Nat × List Char)
  | a :: b :: rest => do return (10 * (← digit? a) + (← digit? b), rest)
  | _ => none

def after? (c : Char) : List Char → Option (List Char)
  | d :: rest => if d = c then some rest else none
  | [] => none

/-- Nanoseconds after a point; digits beyond the ninth are dropped. -/
def fraction? (s : List Char) : Option (Nat × List Char) :=
  match s with
  | '.' :: rest =>
    let digits := rest.takeWhile Text.isDecimal
    if digits.isEmpty then none
    else
      let kept := digits.take 9
      some (Text.decimalFrom 0 kept * Nat.pow 10 (9 - kept.length), rest.dropWhile Text.isDecimal)
  | _ => some (0, s)

def offset? : List Char → Option Int
  | ['Z'] => some 0
  | ['z'] => some 0
  | sign :: rest => do
    let (hours, rest) ← twoDigits? rest
    let (minutes, rest) ← twoDigits? (← after? ':' rest)
    let ahead : Int := 60 * hours + minutes
    if !rest.isEmpty || 23 < hours || 59 < minutes then none
    else if sign = '+' then some ahead
    else if sign = '-' then some (-ahead)
    else none
  | [] => none

/-- Date and time stand apart by one character of one byte. -/
def afterSeparator? : List Char → Option (List Char)
  | c :: rest => if c.toNat < 128 then some rest else none
  | [] => none

/-- The moment that a text names. A leap second, which there is only where a month ends in UTC, is
taken as the last nanosecond before it. -/
def parse? (s : String) : Option Moment := do
  let (century, rest) ← twoDigits? s.toList
  let (years, rest) ← twoDigits? rest
  let (month, rest) ← twoDigits? (← after? '-' rest)
  let (day, rest) ← twoDigits? (← after? '-' rest)
  let (hour, rest) ← twoDigits? (← afterSeparator? rest)
  let (minute, rest) ← twoDigits? (← after? ':' rest)
  let (second, rest) ← twoDigits? (← after? ':' rest)
  let (nano, rest) ← fraction? rest
  let offset ← offset? rest
  let year := 100 * century + years
  if month = 0 ∨ 12 < month ∨ day = 0 ∨ daysInMonth year month < day ∨ 23 < hour ∨ 59 < minute then none
  else if second = 60 then
    let m : Moment := ⟨year, month, day, hour, minute, 59, 999999999, offset⟩
    if m.endsMonth then some m else none
  else if 59 < second then none
  else some ⟨year, month, day, hour, minute, second, nano, offset⟩

/-! ### Writing -/

/-- The digits after the point, without zeros at the end. -/
def fractionText (nano : Nat) : List Char :=
  if nano = 0 then []
  else '.' :: ((Text.decimalPadded 9 nano).reverse.dropWhile (· = '0')).reverse

def offsetText (offset : Int) : List Char :=
  if offset = 0 then ['Z']
  else
    (if offset < 0 then '-' else '+') :: Text.decimalPadded 2 (offset.natAbs / 60) ++
      ':' :: Text.decimalPadded 2 (offset.natAbs % 60)

def text (m : Moment) : String :=
  String.ofList <|
    Text.decimalPadded 4 m.year ++ '-' :: Text.decimalPadded 2 m.month ++
      '-' :: Text.decimalPadded 2 m.day ++ 'T' :: Text.decimalPadded 2 m.hour ++
      ':' :: Text.decimalPadded 2 m.minute ++ ':' :: Text.decimalPadded 2 m.second ++
      fractionText m.nano ++ offsetText m.offset

example : (parse? "2026-02-28 23:59:60.5Z").map text = some "2026-02-28T23:59:59.999999999Z" := by
  decide +kernel
example : (parse? "2026-03-01T01:00:00.1200+01:30").map text =
    some "2026-03-01T01:00:00.12+01:30" := by decide +kernel

end Moment
end Countersign
