import ModRemap.Archive.Zstandard.Checksum
import ModRemap.Archive.Zstandard.Literals
import ModRemap.Archive.Zstandard.Sequences

/-! Reading data that were packed in frames. A frame tells its sizes, and comes in blocks. -/

namespace ModRemap.Zstandard

open Bits

/-! ### Blocks -/

/-- What has been unpacked of a frame, and what the next block may use again. -/
structure Progress where
  out : Array UInt8 := #[]
  literals : Option PrefixCode := none
  codes : Option SequenceCodes := none
  recent : Recent := {}

/-- Unpacks a block that gives at most so many bytes. -/
def Progress.unpack? (p : Progress) (limit : Nat) (s : Bytes) : Option Progress := do
  let (found, literals, s) ← literals? limit p.literals s
  let (sequences, codes) ← sequences? p.codes s
  if limit < (sequences.map fun q => q.literals + q.repeated).foldr (· + ·) 0 then none
  let (out, recent) ← execute? sequences found p.recent p.out
  if p.out.size + limit < out.size then none
  return { out, literals, codes, recent }

/-- Blocks are bytes as they are, one byte many times, or packed. The last one is marked. -/
def blocks? (limit : Nat) : Nat → Progress → Bytes → Option (Array UInt8 × Bytes)
  | 0, _, _ => none
  | fuel + 1, p, s => do
    let ((last, kind, size), s) ← part? (do return (← bit, ← rising 2, ← rising 21)) s
    if limit < size then none
    let (p, s) ←
      match kind with
      | 0 =>
        if s.length < size then none
        else some ({ p with out := p.out ++ (s.take size).toArray }, s.drop size)
      | 1 => s.head?.map fun b => ({ p with out := p.out ++ Array.replicate size b }, s.tail)
      | 2 =>
        if s.length < size || size < 2 then none
        else (p.unpack? limit (s.take size)).map (·, s.drop size)
      | _ => none
    if last = 1 then return (p.out, s) else blocks? limit fuel p s

/-! ### Frames -/

/-- How much may be repeated, how many bytes there are, if it is told, and whether a checksum
follows. -/
structure Header where
  window : Nat
  size : Option Nat
  checked : Bool
deriving DecidableEq, Repr

/-- A power of two, and so many eighths of it more. -/
def window : Reading Nat := do
  let eighths ← rising 3
  let log := 10 + (← rising 5)
  return (1 <<< log) + (1 <<< log) / 8 * eighths

/-- Data that need another file are refused. -/
def frameHeader : Reading Header := do
  let keyBytes ← rising 2
  let checked ← bit
  let reserved ← bit
  let _ ← bit
  let whole ← bit
  let sizeBytes ← rising 2
  if reserved = 1 then failure
  let window? ← if whole = 1 then pure none else some <$> window
  let key ← rising (8 * ((1 <<< keyBytes) / 2))
  let size ←
    match sizeBytes with
    | 0 => if whole = 1 then some <$> rising 8 else pure none
    | 1 => some <$> (· + 0x100) <$> rising 16
    | n => some <$> rising (8 <<< n)
  let window := window?.getD (size.getD 0)
  if key ≠ 0 || (1 <<< 27) + 1 < window then failure
  return ⟨window, size, checked = 1⟩

/-- A frame, and the bytes behind. -/
def frame? (s : Bytes) : Option (Array UInt8 × Bytes) := do
  let (header, s) ← part? frameHeader s
  let (out, s) ← blocks? (min header.window 0x20000) (s.length + 1) {} s
  if header.size.any (· ≠ out.size) then none
  if header.checked then
    let (sum, s) ← part? (rising 32) s
    if sum = (Checksum.ofBytes out.toList).toNat % (1 <<< 32) then return (out, s) else none
  else return (out, s)

def frameMark : Nat := 0xFD2FB528

/-- The first of sixteen marks of frames that are skipped. -/
def skippedMark : Nat := 0x184D2A50

def frames? : Nat → Array UInt8 → Bytes → Option (Array UInt8)
  | 0, _, _ => none
  | fuel + 1, out, s => do
    let (mark, s) ← part? (rising 32) s
    let (out, s) ←
      if mark = frameMark then (frame? s).map fun p => (out ++ p.1, p.2)
      else if mark / 16 = skippedMark / 16 then do
        let (size, s) ← part? (rising 32) s
        if s.length < size then none else some (out, s.drop size)
      else none
    if s = [] then return out else frames? fuel out s

/-- The data of all frames. -/
def read? (s : Bytes) : Option Bytes := (frames? (s.length + 1) #[] s).map Array.toList

end ModRemap.Zstandard
