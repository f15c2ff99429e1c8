/-! Numbers as text: decimal numerals, and the digits that a numeral of a given base may hold. -/

namespace Countersign.Text

def isDecimal (c : Char) : Bool := decide ('0' ≤ c ∧ c ≤ '9')

/-- Reads decimal digits behind those already read, whose value is `n`. -/
def decimalFrom (n : Nat) : List Char → Nat
  | [] => n
  | c :: rest => decimalFrom (10 * n + (c.toNat - '0'.toNat)) rest

def decimal? (s : List Char) : Option Nat :=
  if s.isEmpty || !s.all isDecimal then none else some (decimalFrom 0 s)

/-- The decimal numeral of `n`, without leading zeros. -/
def decimal (n : Nat) : List Char := Nat.toDigits 10 n

/-- The numeral of `n` filled up with zeros to `width` digits. -/
def decimalPadded (width n : Nat) : List Char :=
  List.replicate (width - (decimal n).length) '0' ++ decimal n

end Countersign.Text
