import ModRemap.Json.Basic
import ModRemap.Text.Digit
import ModRemap.Text.Utf8

/-! Reading JSON documents from bytes. A step yields what it read and the rest. -/

namespace ModRemap.RawJson

abbrev Step (α : Type) := Bytes → Option (α × Bytes)

def byteOf (c : Char) : UInt8 := UInt8.ofNat c.toNat

def isSpace (b : UInt8) : Bool := b = 0x20 || b = 0x0A || b = 0x0D || b = 0x09

def skipSpace (s : Bytes) : Bytes := s.dropWhile isSpace

def isDigit (b : UInt8) : Bool := byteOf '0' ≤ b && b ≤ byteOf '9'

def hexDigit? (b : UInt8) : Option Nat := Text.hexDigit? (Char.ofNat b.toNat)

/-! ### Strings -/

/-- A piece of a string: a byte, or a code unit written with four hexadecimal digits. -/
inductive Token where
  | byte (b : UInt8)
  | unit (u : Nat)
deriving DecidableEq

def unitOf? (a b c d : UInt8) : Option Nat := do
  return (((← hexDigit? a) * 16 + (← hexDigit? b)) * 16 + (← hexDigit? c)) * 16 + (← hexDigit? d)

/-- The byte that a backslash and the given byte stand for. -/
def escaped? (b : UInt8) : Option UInt8 :=
  let c := Char.ofNat b.toNat
  if c = '"' || c = '\\' || c = '/' then some b
  else if c = 'b' then some 0x08
  else if c = 'f' then some 0x0C
  else if c = 'n' then some 0x0A
  else if c = 'r' then some 0x0D
  else if c = 't' then some 0x09
  else none

/-- The pieces up to the closing quote, which is read too. -/
def readTokens : Step (List Token)
  | [] => none
  | b :: s =>
    if b = byteOf '"' then some ([], s)
    else if b < 0x20 then none
    else if b = byteOf '\\' then
      match s with
      | [] => none
      | e :: s =>
        if e = byteOf 'u' then
          match s with
          | w :: x :: y :: z :: s => do
            let u ← unitOf? w x y z
            let (ts, s) ← readTokens s
            return (.unit u :: ts, s)
          | _ => none
        else do
          let e ← escaped? e
          let (ts, s) ← readTokens s
          return (.byte e :: ts, s)
    else do
      let (ts, s) ← readTokens s
      return (.byte b :: ts, s)

/-- The bytes of a text; code units beyond the basic plane come in pairs. -/
def tokenBytes? : List Token → Option Bytes
  | [] => some []
  | .byte b :: ts => (tokenBytes? ts).map (b :: ·)
  | .unit u :: ts =>
    if 0xD800 ≤ u && u < 0xDC00 then
      match ts with
      | .unit v :: ts =>
        if 0xDC00 ≤ v && v < 0xE000 then
          (tokenBytes? ts).map
            (String.utf8EncodeChar
              (Char.ofNat (0x10000 + (u - 0xD800) * 0x400 + (v - 0xDC00))) ++ ·)
        else none
      | _ => none
    else if 0xDC00 ≤ u && u < 0xE000 then none
    else (tokenBytes? ts).map (String.utf8EncodeChar (Char.ofNat u) ++ ·)

def readString (s : Bytes) : Option (Option String × Bytes) := do
  let (ts, s) ← readTokens s
  return ((tokenBytes? ts).bind textOf?, s)

/-! ### Numbers -/

def readDigits (s : Bytes) : List Char × Bytes :=
  ((s.takeWhile isDigit).map fun b => Char.ofNat b.toNat, s.dropWhile isDigit)

def readDigits₁ (s : Bytes) : Option (List Char × Bytes) :=
  match readDigits s with
  | ([], _) => none
  | p => some p

/-- A leading zero stands alone. -/
def readWhole (s : Bytes) : Option (List Char × Bytes) := do
  let (ds, s) ← readDigits₁ s
  if ds.head? = some '0' && ds.length ≠ 1 then none else return (ds, s)

def readFraction : Step (List Char)
  | [] => some ([], [])
  | b :: s => if b = byteOf '.' then readDigits₁ s else some ([], b :: s)

def readExponent : Step (Option (Bool × List Char))
  | [] => some (none, [])
  | b :: s =>
    if b = byteOf 'e' || b = byteOf 'E' then do
      let (negative, t) := match s with
        | [] => (false, [])
        | c :: t =>
          if c = byteOf '-' then (true, t) else if c = byteOf '+' then (false, t)
          else (false, c :: t)
      let (ds, s) ← readDigits₁ t
      return (some (negative, ds), s)
    else some (none, b :: s)

def readNumber (s : Bytes) : Option (NumberLiteral × Bytes) := do
  let (negative, s) := match s with
    | [] => (false, [])
    | b :: t => if b = byteOf '-' then (true, t) else (false, b :: t)
  let (whole, s) ← readWhole s
  let (fraction, s) ← readFraction s
  let (exponent, s) ← readExponent s
  return (⟨negative, whole, fraction, exponent⟩, s)

/-! ### Trees -/

def dropBytes? : (head s : Bytes) → Option Bytes
  | [], s => some s
  | _ :: _, [] => none
  | a :: head, b :: s => if a = b then dropBytes? head s else none

def readWord (word : String) (t : RawJson) (s : Bytes) : Option (RawJson × Bytes) :=
  (dropBytes? (bytesOf word) s).map fun s => (t, s)

mutual

/-- Reads a tree with calls nested at most as deep as the first argument says. -/
def readTree : Nat → Step RawJson
  | 0, _ => none
  | _ + 1, [] => none
  | n + 1, b :: s =>
    if b = byteOf '"' then (readString s).map fun p => (.string p.1, p.2)
    else if b = byteOf '[' then (readItems n true (skipSpace s)).map fun p => (.array p.1, p.2)
    else if b = byteOf '\x7b' then
      (readMembers n true (skipSpace s)).map fun p => (.object p.1, p.2)
    else if b = byteOf 'n' then readWord "null" .null (b :: s)
    else if b = byteOf 't' then readWord "true" (.bool true) (b :: s)
    else if b = byteOf 'f' then readWord "false" (.bool false) (b :: s)
    else (readNumber (b :: s)).map fun p => (.number p.1, p.2)

/-- The rest of an array, of which nothing has been read yet when `start` holds. -/
def readItems : Nat → Bool → Step (List RawJson)
  | 0, _, _ => none
  | _ + 1, _, [] => none
  | n + 1, start, b :: s =>
    if b = byteOf ']' then some ([], s)
    else do
      let s ← if start then some (b :: s) else if b = byteOf ',' then some (skipSpace s) else none
      let (t, s) ← readTree n s
      let (ts, s) ← readItems n false (skipSpace s)
      return (t :: ts, s)

def readMembers : Nat → Bool → Step (List (Option String × RawJson))
  | 0, _, _ => none
  | _ + 1, _, [] => none
  | n + 1, start, b :: s =>
    if b = byteOf '\x7d' then some ([], s)
    else do
      let s ← if start then some (b :: s) else if b = byteOf ',' then some (skipSpace s) else none
      let s ← dropBytes? [byteOf '"'] s
      let (key, s) ← readString s
      let s ← dropBytes? [byteOf ':'] (skipSpace s)
      let (t, s) ← readTree n (skipSpace s)
      let (ts, s) ← readMembers n false (skipSpace s)
      return ((key, t) :: ts, s)

end

/-- Reads a document, around which only blanks may stand. -/
def parse? (s : Bytes) : Option RawJson := do
  let (t, rest) ← readTree (2 * s.length + 2) (skipSpace s)
  if (skipSpace rest).isEmpty then some t else none

end ModRemap.RawJson
