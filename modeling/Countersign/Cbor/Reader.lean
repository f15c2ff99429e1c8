import Countersign.Cbor.Basic

/-! Reading one CBOR item off the front of bytes. Lengths may be written longer than needed or left
open, and strings may come in chunks. -/

namespace Countersign.Cbor

/-- The number in the first bytes of an item. -/
inductive Argument where
  /-- A number and how many bytes of its own it has. -/
  | given (n width : Nat)
  /-- No number: the item ends with a break. -/
  | unbounded

def cut? (n : Nat) (bytes : Bytes) : Option (Bytes × Bytes) :=
  if n ≤ bytes.length then some (bytes.take n, bytes.drop n) else none

def readHead : Bytes → Option (Nat × Argument × Bytes)
  | [] => none
  | b :: rest =>
    let kind := b.toNat / 32
    let info := b.toNat % 32
    if info < 24 then some (kind, .given info 0, rest)
    else if info < 28 then do
      let width := 1 <<< (info - 24)
      let (digits, rest) ← cut? width rest
      return (kind, .given (ofBigEndian digits) width, rest)
    else if info = 31 then some (kind, .unbounded, rest)
    else none

/-- The byte that ends an item of open length. -/
def isBreak (b : UInt8) : Bool := b == 0xff

/-- The chunks of a string of open length. Chunks of open length may stand inside it; `levels` of
them have still to end. -/
def readChunks (kind : Nat) : Nat → Nat → Bytes → Option (List Bytes × Bytes)
  | 0, _, _ => none
  | _, _, [] => none
  | fuel + 1, levels, b :: rest =>
    if isBreak b then
      if levels ≤ 1 then some ([], rest) else readChunks kind fuel (levels - 1) rest
    else
      match readHead (b :: rest) with
      | some (other, argument, rest) =>
        if other ≠ kind then none
        else
          match argument with
          | .unbounded => readChunks kind fuel (levels + 1) rest
          | .given n _ => do
            let (chunk, rest) ← cut? n rest
            let (chunks, rest) ← readChunks kind fuel levels rest
            return (chunk :: chunks, rest)
      | none => none

/-- The chunks of a string whose head has been read. -/
def readString (kind : Nat) (argument : Argument) (bytes : Bytes) : Option (List Bytes × Bytes) :=
  match argument with
  | .given n _ => do
    let (chunk, rest) ← cut? n bytes
    return ([chunk], rest)
  | .unbounded => readChunks kind (bytes.length + 1) 1 bytes

/-- The text that chunks make up; each of them is one by itself. -/
def joinText? (chunks : List Bytes) : Option String :=
  (chunks.mapM Text.ofUtf8?).map fun parts => parts.foldl (· ++ ·) ""

/-- The integer that a tag makes of a string of at most sixteen bytes. -/
def bigInteger? (tag : Nat) (content : Bytes) : Option Cbor :=
  let n := ofBigEndian content
  if tag = 2 then some (natural n) else if n < 1 <<< 127 then some (negative n) else none

/-- The string that a tag for integers stands before, if it is definite and short enough. -/
def bigString? (tag : Nat) (bytes : Bytes) : Option (Nat × Bytes) :=
  if tag = 2 ∨ tag = 3 then
    match readHead bytes with
    | some (2, .given n _, rest) => if n ≤ 16 then some (n, rest) else none
    | _ => none
  else none

/-- An item that is no integer, string or container. -/
def readSimple (argument : Argument) (bytes : Bytes) : Option (Cbor × Bytes) :=
  match argument with
  | .unbounded => none
  | .given n width =>
    if 1 < width then some (float (bigEndian width n), bytes)
    else if n = 20 then some (bool false, bytes)
    else if n = 21 then some (bool true, bytes)
    else if n = 22 ∨ n = 23 then some (null, bytes)
    else none

mutual

/-- An item and what follows it. Containers may stand at most `room` levels deep; `fuel` bounds
the steps, of which every second reads a byte. -/
def readItem : Nat → Nat → Bytes → Option (Cbor × Bytes)
  | 0, _, _ => none
  | fuel + 1, room, bytes =>
    match readHead bytes with
    | none => none
    | some (kind, argument, rest) =>
      if kind = 0 then
        match argument with
        | .given n _ => some (natural n, rest)
        | .unbounded => none
      else if kind = 1 then
        match argument with
        | .given n _ => some (negative n, rest)
        | .unbounded => none
      else if kind = 2 then do
        let (chunks, rest) ← readString 2 argument rest
        return (octets chunks.flatten, rest)
      else if kind = 3 then do
        let (chunks, rest) ← readString 3 argument rest
        return (text (← joinText? chunks), rest)
      else if kind = 6 then
        match argument with
        | .unbounded => none
        | .given tag _ =>
          match bigString? tag rest with
          | some (n, rest) => do
            let (content, rest) ← cut? n rest
            return (← bigInteger? tag content, rest)
          | none =>
            match room with
            | 0 => none
            | room + 1 => (readItem fuel room rest).map fun (item, rest) => (tagged tag item, rest)
      else if kind = 7 then readSimple argument rest
      else
        match room, argument with
        | 0, _ => none
        | room + 1, .given n _ =>
          if kind = 4 then
            (readItems fuel room n rest).map fun (items, rest) => (array items, rest)
          else (readEntries fuel room n rest).map fun (entries, rest) => (map entries, rest)
        | room + 1, .unbounded =>
          if kind = 4 then
            (readOpenItems fuel room rest).map fun (items, rest) => (array items, rest)
          else (readOpenEntries fuel room rest).map fun (entries, rest) => (map entries, rest)

def readItems : Nat → Nat → Nat → Bytes → Option (List Cbor × Bytes)
  | 0, _, _, _ => none
  | _, _, 0, bytes => some ([], bytes)
  | fuel + 1, room, n + 1, bytes => do
    let (item, rest) ← readItem fuel room bytes
    let (items, rest) ← readItems fuel room n rest
    return (item :: items, rest)

def readOpenItems : Nat → Nat → Bytes → Option (List Cbor × Bytes)
  | 0, _, _ => none
  | _, _, [] => none
  | fuel + 1, room, b :: rest =>
    if isBreak b then some ([], rest)
    else do
      let (item, rest) ← readItem fuel room (b :: rest)
      let (items, rest) ← readOpenItems fuel room rest
      return (item :: items, rest)

def readEntries : Nat → Nat → Nat → Bytes → Option (List (Cbor × Cbor) × Bytes)
  | 0, _, _, _ => none
  | _, _, 0, bytes => some ([], bytes)
  | fuel + 1, room, n + 1, bytes => do
    let (key, rest) ← readItem fuel room bytes
    let (item, rest) ← readItem fuel room rest
    let (entries, rest) ← readEntries fuel room n rest
    return ((key, item) :: entries, rest)

def readOpenEntries : Nat → Nat → Bytes → Option (List (Cbor × Cbor) × Bytes)
  | 0, _, _ => none
  | _, _, [] => none
  | fuel + 1, room, b :: rest =>
    if isBreak b then some ([], rest)
    else do
      let (key, rest) ← readItem fuel room (b :: rest)
      let (item, rest) ← readItem fuel room rest
      let (entries, rest) ← readOpenEntries fuel room rest
      return ((key, item) :: entries, rest)

end

/-- The item at the front of `bytes`; what follows it does not matter. -/
def read? (bytes : Bytes) : Option Cbor :=
  (readItem (2 * bytes.length + 2) 256 bytes).map fun (item, _) => item

end Countersign.Cbor
