import ModRemap.ClassFile.Error
import ModRemap.Text.Utf8

/-! Reading and writing big-endian words. A reader takes bytes from the front of its input. -/

namespace ModRemap

abbrev Reader := StateT Bytes (Except ClassError)

namespace Reader

def fail {α : Type} (e : ClassError) : Reader α := fun _ => .error e

/-- Takes exactly `n` bytes. -/
def take (n : Nat) : Reader Bytes := fun s =>
  if n ≤ s.length then .ok (s.take n, s.drop n) else .error .unexpectedEnd

def u1 : Reader UInt8
  | [] => .error .unexpectedEnd
  | a :: s => .ok (a, s)

def word (a b : UInt8) : UInt16 := UInt16.ofNat (a.toNat * 0x100 + b.toNat)

def u2 : Reader UInt16
  | a :: b :: s => .ok (word a b, s)
  | _ => .error .unexpectedEnd

def u4 : Reader UInt32
  | a :: b :: c :: d :: s =>
    .ok (UInt32.ofNat ((word a b).toNat * 0x10000 + (word c d).toNat), s)
  | _ => .error .unexpectedEnd

def u8 : Reader UInt64 := do
  let high ← u4
  let low ← u4
  return UInt64.ofNat (high.toNat * 0x100000000 + low.toNat)

/-- Reads `n` values one after the other. -/
def times {α : Type} (r : Reader α) : Nat → Reader (List α)
  | 0 => pure []
  | n + 1 => do
    let a ← r
    let as ← times r n
    return a :: as

/-- A list behind its 16-bit length. -/
def counted {α : Type} (r : Reader α) : Reader (List α) := do
  let n ← u2
  times r n.toNat

/-- What a reader read, with the bytes it took. -/
def raw {α : Type} (r : Reader α) : Reader (Bytes × α) := fun s => do
  let (a, rest) ← r s
  return ((s.take (s.length - rest.length), a), rest)

end Reader

namespace Bytes

def ofU2 (n : UInt16) : Bytes := [UInt8.ofNat (n.toNat / 0x100), UInt8.ofNat n.toNat]

def ofU4 (n : UInt32) : Bytes :=
  ofU2 (UInt16.ofNat (n.toNat / 0x10000)) ++ ofU2 (UInt16.ofNat n.toNat)

def ofU8 (n : UInt64) : Bytes :=
  ofU4 (UInt32.ofNat (n.toNat / 0x100000000)) ++ ofU4 (UInt32.ofNat n.toNat)

/-- The number of items in 16 bits, then the items. -/
def ofCounted {α : Type} (f : α → Bytes) (items : List α) : Bytes :=
  ofU2 (UInt16.ofNat items.length) ++ items.flatMap f

end Bytes

end ModRemap
