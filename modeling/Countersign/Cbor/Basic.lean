import Countersign.Bytes.Word
import Countersign.Text.Utf8

/-! CBOR items, and their shortest encoding with definite lengths. -/

namespace Countersign

inductive Cbor where
  | natural (n : Nat)
  /-- The number `-1 - n`. -/
  | negative (n : Nat)
  | octets (content : Bytes)
  | text (s : String)
  | array (items : List Cbor)
  | map (entries : List (Cbor × Cbor))
  | tagged (tag : Nat) (item : Cbor)
  /-- A floating point number by its two, four or eight bytes. -/
  | float (content : Bytes)
  | bool (b : Bool)
  | null

namespace Cbor

/-- The first bytes of an item: its kind and a number, in as few bytes as the number needs. -/
def head (kind n : Nat) : Bytes :=
  if n < 24 then [UInt8.ofNat (32 * kind + n)]
  else if n < 0x100 then UInt8.ofNat (32 * kind + 24) :: bigEndian 1 n
  else if n < 0x10000 then UInt8.ofNat (32 * kind + 25) :: bigEndian 2 n
  else if n < 0x100000000 then UInt8.ofNat (32 * kind + 26) :: bigEndian 4 n
  else UInt8.ofNat (32 * kind + 27) :: bigEndian 8 n

mutual

def encode : Cbor → Bytes
  | natural n => head 0 n
  | negative n => head 1 n
  | octets content => head 2 content.length ++ content
  | text s => head 3 (Text.utf8 s).length ++ Text.utf8 s
  | array items => head 4 items.length ++ encodeItems items
  | map entries => head 5 entries.length ++ encodeEntries entries
  | tagged tag item => head 6 tag ++ encode item
  | float content =>
    (if content.length = 2 then 0xf9 else if content.length = 4 then 0xfa else 0xfb) :: content
  | bool false => [0xf4]
  | bool true => [0xf5]
  | null => [0xf6]

def encodeItems : List Cbor → Bytes
  | [] => []
  | item :: rest => encode item ++ encodeItems rest

def encodeEntries : List (Cbor × Cbor) → Bytes
  | [] => []
  | (key, item) :: rest => encode key ++ encode item ++ encodeEntries rest

end

end Cbor
end Countersign
