import Countersign.Json.Writer

/-! Reading JSON text. A value is read strictly; a text as a whole is read up to its first fault,
so that what an earlier entry is wrong about is found before a later fault of form. -/

namespace Countersign.Json

def isSpace (b : UInt8) : Bool := b == 0x20 || b == 0x0a || b == 0x09 || b == 0x0d

def skipSpace (bytes : Bytes) : Bytes := bytes.dropWhile isSpace

def isDigit (b : UInt8) : Bool := 0x30 ≤ b && b ≤ 0x39

def after? (word bytes : Bytes) : Option Bytes :=
  if word.isPrefixOf bytes then some (bytes.drop word.length) else none

/-! ### Texts -/

/-- A part of a text between quotation marks: a byte, or a code unit that is escaped by number. -/
inductive Piece where
  | byte (b : UInt8)
  | unit (n : Nat)

def escaped? (b : UInt8) : Option UInt8 :=
  if b = 0x22 ∨ b = 0x5c ∨ b = 0x2f then some b
  else if b = 0x62 then some 0x08
  else if b = 0x66 then some 0x0c
  else if b = 0x6e then some 0x0a
  else if b = 0x72 then some 0x0d
  else if b = 0x74 then some 0x09
  else none

def codeUnit? (a b c d : UInt8) : Option Nat := do
  let w ← Hex.digit? (Char.ofNat a.toNat)
  let x ← Hex.digit? (Char.ofNat b.toNat)
  let y ← Hex.digit? (Char.ofNat c.toNat)
  let z ← Hex.digit? (Char.ofNat d.toNat)
  return 4096 * w + 256 * x + 16 * y + z

/-- The pieces up to the closing quotation mark, and what follows it. -/
def readPieces : Bytes → Option (List Piece × Bytes)
  | [] => none
  | 0x22 :: rest => some ([], rest)
  | 0x5c :: 0x75 :: a :: b :: c :: d :: rest => do
    let n ← codeUnit? a b c d
    let (pieces, rest) ← readPieces rest
    return (.unit n :: pieces, rest)
  | 0x5c :: e :: rest => do
    let b ← escaped? e
    let (pieces, rest) ← readPieces rest
    return (.byte b :: pieces, rest)
  | b :: rest =>
    if b < 0x20 ∨ b = 0x5c then none
    else (readPieces rest).map fun (pieces, rest) => (.byte b :: pieces, rest)

/-- The bytes of a code point. A surrogate on its own gets the three bytes of its number, which
no text holds. -/
def codePointBytes (n : Nat) : Bytes :=
  if n < 0x80 then [UInt8.ofNat n]
  else if n < 0x800 then [UInt8.ofNat (0xc0 + n / 64), UInt8.ofNat (0x80 + n % 64)]
  else if n < 0x10000 then
    [UInt8.ofNat (0xe0 + n / 4096), UInt8.ofNat (0x80 + n / 64 % 64), UInt8.ofNat (0x80 + n % 64)]
  else
    [UInt8.ofNat (0xf0 + n / 262144), UInt8.ofNat (0x80 + n / 4096 % 64),
     UInt8.ofNat (0x80 + n / 64 % 64), UInt8.ofNat (0x80 + n % 64)]

def isLeading (n : Nat) : Bool := 0xd800 ≤ n && n ≤ 0xdbff

def isTrailing (n : Nat) : Bool := 0xdc00 ≤ n && n ≤ 0xdfff

/-- The bytes of a text from its pieces; a leading and a trailing unit make one code point. -/
def joinPieces : List Piece → Bytes
  | [] => []
  | .byte b :: rest => b :: joinPieces rest
  | .unit n :: .unit m :: rest =>
    if isLeading n && isTrailing m then
      codePointBytes (0x10000 + (n - 0xd800) * 1024 + (m - 0xdc00)) ++ joinPieces rest
    else codePointBytes n ++ joinPieces (.unit m :: rest)
  | .unit n :: rest => codePointBytes n ++ joinPieces rest

/-- A text whose opening quotation mark has been read. -/
def readText (bytes : Bytes) : Option (Bytes × Bytes) :=
  (readPieces bytes).map fun (pieces, rest) => (joinPieces pieces, rest)

/-! ### Numbers -/

def digitsOf (bytes : Bytes) : Bytes × Bytes := (bytes.takeWhile isDigit, bytes.dropWhile isDigit)

/-- A point and at least one digit, if there is a point. -/
def readFraction (bytes : Bytes) : Option (Bytes × Bytes) :=
  match bytes with
  | 0x2e :: rest =>
    let (digits, rest) := digitsOf rest
    if digits.isEmpty then none else some (0x2e :: digits, rest)
  | _ => some ([], bytes)

/-- An exponent with at least one digit, if there is one; its sign is always written out. -/
def readExponent (bytes : Bytes) : Option (Bytes × Bytes) :=
  match bytes with
  | e :: rest =>
    if e = 0x65 ∨ e = 0x45 then
      let (sign, rest) := match rest with
        | 0x2d :: rest => ((0x2d : UInt8), rest)
        | 0x2b :: rest => (0x2b, rest)
        | rest => (0x2b, rest)
      let (digits, rest) := digitsOf rest
      if digits.isEmpty then none else some (0x65 :: sign :: digits, rest)
    else some ([], bytes)
  | [] => some ([], bytes)

def valueOf (digits : Bytes) : Nat := digits.foldl (fun n b => 10 * n + (b.toNat - 0x30)) 0

/-- A number without its sign. A leading zero stands alone. -/
def readUnsigned (negative : Bool) (bytes : Bytes) : Option (Json × Bytes) := do
  let (whole, rest) := digitsOf bytes
  if whole.isEmpty ∨ (whole.head? = some 0x30 ∧ whole.length ≠ 1) then none
  let (fraction, rest) ← readFraction rest
  let (exponent, rest) ← readExponent rest
  if negative || !fraction.isEmpty || !exponent.isEmpty then
    let sign : Bytes := if negative then [0x2d] else []
    return (number (sign ++ whole ++ fraction ++ exponent), rest)
  else return (natural (valueOf whole), rest)

/-! ### Values -/

def readWord (word : String) (j : Json) (bytes : Bytes) : Option (Json × Bytes) :=
  (after? (ascii word) bytes).map fun rest => (j, rest)

mutual

/-- A value and what follows it. `fuel` bounds the steps; every second step reads a byte. -/
def readValue : Nat → Bytes → Option (Json × Bytes)
  | 0, _ => none
  | fuel + 1, bytes =>
    match skipSpace bytes with
    | 0x22 :: rest => (readText rest).map fun (t, rest) => (text t, rest)
    | 0x5b :: rest =>
      match skipSpace rest with
      | 0x5d :: rest => some (array [], rest)
      | rest => (readItems fuel rest).map fun (items, rest) => (array items, rest)
    | 0x7b :: rest =>
      match skipSpace rest with
      | 0x7d :: rest => some (object [], rest)
      | rest => (readEntries fuel rest).map fun (entries, rest) => (object entries, rest)
    | 0x2d :: rest => readUnsigned true rest
    | b :: rest =>
      if isDigit b then readUnsigned false (b :: rest)
      else if b = 0x6e then readWord "null" null (b :: rest)
      else if b = 0x74 then readWord "true" (bool true) (b :: rest)
      else if b = 0x66 then readWord "false" (bool false) (b :: rest)
      else none
    | [] => none

/-- The items of an array that has at least one more, and what follows the array. -/
def readItems : Nat → Bytes → Option (List Json × Bytes)
  | 0, _ => none
  | fuel + 1, bytes => do
    let (j, rest) ← readValue fuel bytes
    match skipSpace rest with
    | 0x2c :: rest =>
      let (items, rest) ← readItems fuel rest
      return (j :: items, rest)
    | 0x5d :: rest => return ([j], rest)
    | _ => none

/-- The entries of an object that has at least one more, and what follows the object. -/
def readEntries : Nat → Bytes → Option (List (Bytes × Json) × Bytes)
  | 0, _ => none
  | fuel + 1, bytes => do
    let rest ← after? [0x22] (skipSpace bytes)
    let (name, rest) ← readText rest
    let rest ← after? [0x3a] (skipSpace rest)
    let (j, rest) ← readValue fuel rest
    match skipSpace rest with
    | 0x2c :: rest =>
      let (entries, rest) ← readEntries fuel rest
      return ((name, j) :: entries, rest)
    | 0x7d :: rest => return ([(name, j)], rest)
    | _ => none

end

/-- Enough steps to read any value that starts in `bytes`. -/
def steps (bytes : Bytes) : Nat := 2 * bytes.length + 2

/-- The value that a text consists of, blanks around it aside. -/
def read? (bytes : Bytes) : Option Json := do
  let (j, rest) ← readValue (steps bytes) bytes
  if (skipSpace rest).isEmpty then return j else none

/-! ### Texts up to their first fault -/

/-- The top of a text, with what it holds before the first fault of form; `whole` says that there
is no such fault. -/
inductive Document where
  | fields (entries : List (Bytes × Json)) (whole : Bool)
  | items (items : List Json) (whole : Bool)
  | single (value : Json) (whole : Bool)
  | nothing

def document : Json → Document
  | object entries => .fields entries true
  | array items => .items items true
  | j => .single j true

def ended (rest : Bytes) : Bool := (skipSpace rest).isEmpty

def fieldsFrom : Nat → Bytes → List (Bytes × Json) × Bool
  | 0, _ => ([], false)
  | fuel + 1, bytes =>
    let read : Option ((Bytes × Json) × Bytes) := do
      let rest ← after? [0x22] (skipSpace bytes)
      let (name, rest) ← readText rest
      let rest ← after? [0x3a] (skipSpace rest)
      let (j, rest) ← readValue (steps rest) rest
      return ((name, j), rest)
    match read with
    | none => ([], false)
    | some (e, rest) =>
      match skipSpace rest with
      | 0x2c :: rest =>
        let (entries, whole) := fieldsFrom fuel rest
        (e :: entries, whole)
      | 0x7d :: rest => ([e], ended rest)
      | _ => ([e], false)

def itemsFrom : Nat → Bytes → List Json × Bool
  | 0, _ => ([], false)
  | fuel + 1, bytes =>
    match readValue (steps bytes) bytes with
    | none => ([], false)
    | some (j, rest) =>
      match skipSpace rest with
      | 0x2c :: rest =>
        let (items, whole) := itemsFrom fuel rest
        (j :: items, whole)
      | 0x5d :: rest => ([j], ended rest)
      | _ => ([j], false)

def readDocument (bytes : Bytes) : Document :=
  match skipSpace bytes with
  | 0x7b :: rest =>
    match skipSpace rest with
    | 0x7d :: rest => .fields [] (ended rest)
    | rest => let (entries, whole) := fieldsFrom (steps rest) rest; .fields entries whole
  | 0x5b :: rest =>
    match skipSpace rest with
    | 0x5d :: rest => .items [] (ended rest)
    | rest => let (items, whole) := itemsFrom (steps rest) rest; .items items whole
  | rest =>
    match readValue (steps rest) rest with
    | some (j, rest) => .single j (ended rest)
    | none => .nothing

end Countersign.Json
