import ModRemap.Archive.Deflate.Table
import ModRemap.Archive.Repeat

/-! Reading deflated data. -/

namespace ModRemap.Deflate

open Bits

def inRange (ranges : List (Nat × Nat)) (symbol : Nat) : Reading Nat := do
  let (first, bits) ← liftM ranges[symbol]?
  return first + (← rising bits)

/-- The rest of a block that is written in two codes. -/
def coded (literals distances : PrefixCode) : Nat → Array UInt8 → Reading (Array UInt8)
  | 0, _ => failure
  | fuel + 1, out => do
    let symbol ← literals.symbol
    if symbol < endSymbol then coded literals distances fuel (out.push (UInt8.ofNat symbol))
    else if symbol = endSymbol then return out
    else
      let length ← inRange lengthRanges (symbol - (endSymbol + 1))
      let distance ← inRange distanceRanges (← distances.symbol)
      coded literals distances fuel (repeatBack distance length out)

/-- Lengths of words, newest first, until there are enough. The last three symbols repeat the newest
length or add zeros. -/
def lengthsOf (c : PrefixCode) (wanted : Nat) : Nat → List Nat → Reading (List Nat)
  | 0, _ => failure
  | fuel + 1, found => do
    if wanted < found.length then failure
    else if found.length = wanted then return found
    else
      let symbol ← c.symbol
      if symbol < 16 then lengthsOf c wanted fuel (symbol :: found)
      else if symbol = 16 then
        let newest ← liftM found.head?
        lengthsOf c wanted fuel (List.replicate (3 + (← rising 2)) newest ++ found)
      else if symbol = 17 then
        lengthsOf c wanted fuel (List.replicate (3 + (← rising 3)) 0 ++ found)
      else lengthsOf c wanted fuel (List.replicate (11 + (← rising 7)) 0 ++ found)

def codeOf (lengths : List Nat) : PrefixCode := .ofLengths 15 lengths

/-- A code must use all words, unless there are none or one. -/
def isUsable (c : PrefixCode) : Bool := c.isComplete || c.isTrivial

/-- The codes that a block brings itself. -/
def ownCodes : Reading (PrefixCode × PrefixCode) := do
  let literals := 257 + (← rising 5)
  let distances := 1 + (← rising 5)
  if 286 < literals || 30 < distances then failure
  let given ← (List.range (4 + (← rising 4))).mapM fun _ => rising 3
  let lengthCode := codeOf ((List.range 19).map fun symbol =>
    (List.lookup symbol (lengthOrder.zip given)).getD 0)
  if !lengthCode.isComplete then failure
  let wanted := literals + distances
  let lengths := (← lengthsOf lengthCode wanted (wanted + 1) []).reverse
  let codes := (codeOf (lengths.take literals), codeOf (lengths.drop literals))
  if isUsable codes.1 && isUsable codes.2 then return codes else failure

def commonCodes : PrefixCode × PrefixCode := (codeOf commonLengths.1, codeOf commonLengths.2)

/-- A block of bytes as they are, from the next whole byte on. -/
def plain (out : Array UInt8) : Reading (Array UInt8) := do
  modify fun s => s.drop (s.length % 8)
  let size ← rising 16
  if size + (← rising 16) ≠ 0xFFFF then failure
  let bytes ← (List.range size).mapM fun _ => rising 8
  return out ++ (bytes.map UInt8.ofNat).toArray

def blocks : Nat → Array UInt8 → Reading (Array UInt8)
  | 0, _ => failure
  | fuel + 1, out => do
    let last ← bit
    let kind ← rising 2
    let left := (← get).length
    let out ←
      if kind = 0 then plain out
      else if kind = 1 then coded commonCodes.1 commonCodes.2 (left + 1) out
      else if kind = 2 then do
        let codes ← ownCodes
        coded codes.1 codes.2 (left + 1) out
      else failure
    if last = 1 then return out else blocks fuel out

/-- The data that were deflated. What follows the last block is not looked at. -/
def read? (s : Bytes) : Option Bytes :=
  let bits := upward s
  ((blocks (bits.length + 1) #[]).run bits).map fun p => p.1.toList

end ModRemap.Deflate
