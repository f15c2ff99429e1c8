/-! The characters that count as blank around a value: those with the White_Space property. -/

namespace Countersign.Text

def isBlank (c : Char) : Bool :=
  let n := c.toNat
  (9 ≤ n && n ≤ 13) || n == 0x20 || n == 0x85 || n == 0xa0 || n == 0x1680 ||
    (0x2000 ≤ n && n ≤ 0x200a) || n == 0x2028 || n == 0x2029 || n == 0x202f ||
    n == 0x205f || n == 0x3000

def trim (s : List Char) : List Char :=
  ((s.dropWhile isBlank).reverse.dropWhile isBlank).reverse

def trimmed (s : String) : String := String.ofList (trim s.toList)

/-- The trimmed text, unless nothing is left of it. -/
def stated? (s : String) : Option String :=
  if (trim s.toList).isEmpty then none else some (trimmed s)

end Countersign.Text
