import ModRemap.Archive.Bzip2.Scatter
import ModRemap.Archive.Bzip2.Transform
import ModRemap.Archive.PrefixCode

/-! Reading data that were sorted block by block. -/

namespace ModRemap.Bzip2

open Bits

/-- The checksum of a block, with its bits from the highest down. -/
def checksumStep (crc : UInt32) (b : UInt8) : UInt32 :=
  (List.range 8).foldl
    (fun crc _ => if crc < 0x80000000 then crc <<< 1 else (crc <<< 1) ^^^ 0x04C11DB7)
    (crc ^^^ (b.toUInt32 <<< 24))

def checksum (s : Array UInt8) : UInt32 := ~~~(s.foldl checksumStep 0xFFFFFFFF)

/-- A checksum of all blocks. -/
def combine (all block : UInt32) : UInt32 := ((all <<< 1) ||| (all >>> 31)) ^^^ block

/-- Those of sixteen items whose flags are set. -/
def flagged {α : Type} (items : List α) : Reading (List α) := do
  let flags ← items.mapM fun _ => bit
  return ((items.zip flags).filter fun p => p.2 = 1).map Prod.fst

/-- The bytes that a block uses, sixteen by sixteen. -/
def usedBytes : Reading (List UInt8) := do
  let rows ← flagged (List.range 16)
  let used ← rows.mapM fun row => flagged ((List.range 16).map fun i => 16 * row + i)
  return used.flatten.map UInt8.ofNat

/-- A number below the limit, as so many ones before a zero. -/
def unary : Nat → Reading Nat
  | 0 => failure
  | limit + 1 => do if (← bit) = 0 then return 0 else return (← unary limit) + 1

/-- A length of a word. It differs from the one before by steps of one, up or down. -/
def lengthFrom : Nat → Nat → Reading Nat
  | 0, _ => failure
  | fuel + 1, length => do
    if length < 1 || 20 < length then failure
    else if (← bit) = 0 then return length
    else if (← bit) = 0 then lengthFrom fuel (length + 1)
    else lengthFrom fuel (length - 1)

def lengths : Nat → Nat → Reading (List Nat)
  | 0, _ => return []
  | n + 1, length => do
    let length ← lengthFrom ((← get).length + 1) length
    return length :: (← lengths n length)

def code (symbols : Nat) : Reading PrefixCode := do
  return .ofLengths 20 (← lengths symbols (← falling 5))

/-- Reads symbols up to a number of them, and tells whether the last symbol of the block came. -/
def group (c : PrefixCode) (last : Nat) : Nat → Array Nat → Reading (Array Nat × Bool)
  | 0, out => return (out, false)
  | n + 1, out => do
    let symbol ← c.symbol
    if symbol = last then return (out, true) else group c last n (out.push symbol)

/-- Reads groups of fifty symbols, each in the code that is selected for it. -/
def groups (last : Nat) : List PrefixCode → Array Nat → Reading (Array Nat)
  | [], _ => failure
  | c :: selected, out => do
    let (out, done) ← group c last 50 out
    if done then return out else groups last selected out

/-- As many selectors as a block can need. -/
def selectorLimit : Nat := 18002

/-- A block of at most so many bytes, and its checksum. -/
def block (limit : Nat) : Reading (Array UInt8 × UInt32) := do
  let recorded ← falling 32
  let scattered ← bit
  let start ← falling 24
  let used ← usedBytes
  if used = [] then failure
  let count ← falling 3
  if count < 2 || 6 < count then failure
  let selectors ← falling 15
  if selectors = 0 then failure
  let places ← (List.range selectors).mapM fun _ => unary count
  let codes ← (List.range count).mapM fun _ => code (used.length + 2)
  let selected ← liftM (recalled (places.take selectorLimit) codes)
  let symbols ← groups (used.length + 1) selected #[]
  let sorted ← liftM (expand? limit symbols.toList used 1 #[])
  let raw ← liftM (unsorted? sorted start)
  let raw := if scattered = 1 then gather 0 gaps raw.toList else raw.toList
  let data ← liftM (unpackRuns? raw none 0 #[])
  let crc := checksum data
  if crc.toNat = recorded then return (data, crc) else failure

def blockMark : Nat := 0x314159265359

def endMark : Nat := 0x177245385090

def blocks (limit : Nat) : Nat → UInt32 → Array UInt8 → Reading (Array UInt8)
  | 0, _, _ => failure
  | fuel + 1, all, out => do
    let mark ← falling 48
    if mark = blockMark then
      let (data, crc) ← block limit
      blocks limit fuel (combine all crc) (out ++ data)
    else if mark = endMark && (← falling 32) = all.toNat then return out
    else failure

/-- The header tells the size of blocks in hundred thousands of bytes, as a digit. -/
def stream : Reading (Array UInt8) := do
  if (← falling 24) ≠ 0x425A68 then failure
  let digit ← falling 8
  if digit < 0x31 || 0x39 < digit then failure
  blocks (100000 * (digit - 0x30)) ((← get).length + 1) 0 #[]

/-- The data that were packed. What follows the end is not looked at. -/
def read? (s : Bytes) : Option Bytes := (stream.run (downward s)).map fun p => p.1.toList

end ModRemap.Bzip2
