import ModRemap.Text.Utf16
import ModRemap.Text.Utf8

/-! The encoding of text in class files: each UTF-16 code unit takes one to three bytes, and NUL
takes two. -/

namespace ModRemap.ModifiedUtf8

def encodeUnit (u : UInt16) : Bytes :=
  let n := u.toNat
  if 0x01 ≤ n ∧ n ≤ 0x7F then [UInt8.ofNat n]
  else if n ≤ 0x7FF then [UInt8.ofNat (0xC0 + n / 64), UInt8.ofNat (0x80 + n % 64)]
  else [UInt8.ofNat (0xE0 + n / 4096), UInt8.ofNat (0x80 + n / 64 % 64),
    UInt8.ofNat (0x80 + n % 64)]

def encode (s : String) : Bytes := (Utf16.encode s.toList).flatMap encodeUnit

/-- How many bytes a lead byte announces after it. -/
def extra? (lead : UInt8) : Option Nat :=
  if lead < 0x80 then some 0
  else if lead < 0xC0 then none
  else if lead < 0xE0 then some 1
  else if lead < 0xF0 then some 2
  else none

/-- The last six bits; of a byte after the first, nothing else counts. -/
def low (b : UInt8) : Nat := b.toNat % 64

def units? : Bytes → Option (List UInt16)
  | [] => some []
  | a :: s =>
    match extra? a, s with
    | some 0, s => (units? s).map (UInt16.ofNat a.toNat :: ·)
    | some 1, b :: s => (units? s).map (UInt16.ofNat (a.toNat % 32 * 64 + low b) :: ·)
    | some 2, b :: c :: s =>
      (units? s).map (UInt16.ofNat ((a.toNat % 16 * 64 + low b) * 64 + low c) :: ·)
    | _, _ => none

def decode? (bytes : Bytes) : Option String :=
  ((units? bytes).bind Utf16.decode?).map String.ofList

end ModRemap.ModifiedUtf8
