import Countersign.Json.Basic
import Countersign.Text.Numeral

/-! JSON text: on one line without blanks, or one entry a line with two blanks of indentation
a level. -/

namespace Countersign.Json

def ascii (s : String) : Bytes := Text.utf8 s

def hexByte (n : Nat) : UInt8 := (Nat.digitChar n).toUInt8

/-- A byte inside quotation marks. Quotation marks, backslashes and controls are escaped; the
bytes of other characters stand for themselves. -/
def escape (b : UInt8) : Bytes :=
  if b = 0x22 then [0x5c, 0x22]
  else if b = 0x5c then [0x5c, 0x5c]
  else if b = 0x08 then [0x5c, 0x62]
  else if b = 0x09 then [0x5c, 0x74]
  else if b = 0x0a then [0x5c, 0x6e]
  else if b = 0x0c then [0x5c, 0x66]
  else if b = 0x0d then [0x5c, 0x72]
  else if b < 0x20 then
    [0x5c, 0x75, 0x30, 0x30, hexByte (b.toNat / 16), hexByte (b.toNat % 16)]
  else [b]

def quote (bytes : Bytes) : Bytes := 0x22 :: bytes.flatMap escape ++ [0x22]

def numeral (n : Nat) : Bytes := (Text.decimal n).map Char.toUInt8

mutual

def compact : Json → Bytes
  | null => ascii "null"
  | bool true => ascii "true"
  | bool false => ascii "false"
  | natural n => numeral n
  | number literal => literal
  | text bytes => quote bytes
  | array items => 0x5b :: compactItems items ++ [0x5d]
  | object entries => 0x7b :: compactEntries entries ++ [0x7d]

def compactItems : List Json → Bytes
  | [] => []
  | [j] => compact j
  | j :: rest => compact j ++ 0x2c :: compactItems rest

def compactEntries : List (Bytes × Json) → Bytes
  | [] => []
  | [(name, j)] => quote name ++ 0x3a :: compact j
  | (name, j) :: rest => quote name ++ 0x3a :: compact j ++ 0x2c :: compactEntries rest

end

def newLine (level : Nat) : Bytes := 0x0a :: List.replicate (2 * level) 0x20

mutual

def pretty (level : Nat) : Json → Bytes
  | null => ascii "null"
  | bool true => ascii "true"
  | bool false => ascii "false"
  | natural n => numeral n
  | number literal => literal
  | text bytes => quote bytes
  | array [] => ascii "[]"
  | array (j :: rest) =>
    0x5b :: prettyItems (level + 1) (j :: rest) ++ newLine level ++ [0x5d]
  | object [] => [0x7b, 0x7d]
  | object (e :: rest) =>
    0x7b :: prettyEntries (level + 1) (e :: rest) ++ newLine level ++ [0x7d]

def prettyItems (level : Nat) : List Json → Bytes
  | [] => []
  | [j] => newLine level ++ pretty level j
  | j :: rest => newLine level ++ pretty level j ++ 0x2c :: prettyItems level rest

def prettyEntries (level : Nat) : List (Bytes × Json) → Bytes
  | [] => []
  | [(name, j)] => newLine level ++ quote name ++ 0x3a :: 0x20 :: pretty level j
  | (name, j) :: rest =>
    newLine level ++ quote name ++ 0x3a :: 0x20 :: pretty level j ++
      0x2c :: prettyEntries level rest

end

def shown (bytes : Bytes) : String := (Text.ofUtf8? bytes).getD ""

end Countersign.Json
