import Countersign.Bytes.Base64
import Countersign.Disk.Basic
import Countersign.Text.Blank

/-! Key material as text: hexadecimal digits or base64. `0x` or `0X` in front marks digits where
nothing else says which of the two it is. -/

namespace Countersign

inductive KeyEncoding where
  | auto
  | hex
  | base64
  deriving DecidableEq, Repr

/-- Why key material is refused. `name` is what the material is called. -/
inductive KeyFault where
  | empty (name : String)
  | oddHex (name : String)
  /-- The byte at that place, counted from the first digit, is no digit. -/
  | strayByte (name : String) (byte : UInt8) (place : Nat)
  | notBase64 (name : String)
  | unreadable (name path : String)
  deriving DecidableEq, Repr

namespace KeyFault

/-- The escape of a byte that does not stand for itself between quotation marks, after the
backslash. -/
def escapeOf? (byte : UInt8) : Option String :=
  if byte = 0x00 then some "0"
  else if byte = 0x09 then some "t"
  else if byte = 0x0a then some "n"
  else if byte = 0x0d then some "r"
  else if byte = 0x27 ∨ byte = 0x5c then some (String.singleton (Char.ofNat byte.toNat))
  else if byte < 0x20 ∨ (0x7f ≤ byte ∧ byte ≤ 0xa0) ∨ byte = 0xad then
    some ("u\x7b" ++ String.ofList (Nat.toDigits 16 byte.toNat) ++ "\x7d")
  else none

/-- A byte between quotation marks, as the character of that number. -/
def quotedByte (byte : UInt8) : String :=
  match escapeOf? byte with
  | some escape => "'\\" ++ escape ++ "'"
  | none => "'" ++ String.singleton (Char.ofNat byte.toNat) ++ "'"

def message : KeyFault → String
  | empty name => s!"{name} is empty"
  | oddHex name => s!"{name} hex has an odd number of digits"
  | strayByte name byte place =>
    s!"{name} is not valid hex: Invalid character {quotedByte byte} at position {place}"
  | notBase64 name => s!"{name} is not valid base64"
  | unreadable name path => s!"failed reading {name} from {path}"

end KeyFault

namespace KeyEncoding

def usesHex : KeyEncoding → List Char → Bool
  | hex, _ => true
  | base64, _ => false
  | auto, text => (Hex.unprefixed? text).isSome

/-- The bytes of hexadecimal digits with or without a prefix. -/
def decodeHex (name : String) (text : List Char) : Except KeyFault Bytes :=
  let digits := Hex.bare text
  if (String.ofList digits).utf8ByteSize % 2 ≠ 0 then .error (.oddHex name)
  else
    match Hex.decode? digits, Hex.firstStray? digits with
    | some bytes, _ => .ok bytes
    | none, some (place, c) =>
      .error (.strayByte name ((String.utf8EncodeChar c).headD 0) place)
    | none, none => .error (.oddHex name)

def decode (encoding : KeyEncoding) (name value : String) : Except KeyFault Bytes :=
  let text := Text.trim value.toList
  if text.isEmpty then .error (.empty name)
  else if encoding.usesHex text then decodeHex name text
  else
    match Base64.decode? text with
    | some bytes => .ok bytes
    | none => .error (.notBase64 name)

/-- The key material that `source` names: the content of a file, or the material itself. -/
def load (encoding : KeyEncoding) (disk : Disk) (name source : String) : Except KeyFault Bytes :=
  let path := Text.trimmed source
  if path.isEmpty then .error (.empty name)
  else
    match disk.find? path with
    | some (.file _ content) => .ok content
    | _ => encoding.decode name path

end KeyEncoding
end Countersign
