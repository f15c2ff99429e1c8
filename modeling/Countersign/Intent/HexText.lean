import Countersign.Bytes.Hex
import Countersign.Intent.Fault

/-! Hexadecimal values as requests write them: `0x` in lower case, then digits of either case. -/

namespace Countersign

/-- The digits of a hexadecimal value, in lower case. -/
structure HexText where
  digits : List Char
  deriving DecidableEq, Repr

namespace HexText

def read (field value : String) : Except IntentFault HexText :=
  match value.toList with
  | '0' :: 'x' :: rest =>
    if rest.all Hex.isDigit then .ok ⟨rest.map Char.toLower⟩ else .error (.notHex field value)
  | _ => .error (.notHex field value)

def text (h : HexText) : String := String.ofList ('0' :: 'x' :: h.digits)

def bytes (field : String) (h : HexText) : Except IntentFault Bytes :=
  if h.digits.length % 2 ≠ 0 then .error (.oddHex field)
  else
    match Hex.decode? h.digits with
    | some bytes => .ok bytes
    | none => .error (.notHex field h.text)

end HexText
end Countersign
