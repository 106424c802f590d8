import ModRemap.Archive.Deflate.Blocks
import ModRemap.Archive.Deflate.Table
import ModRemap.Archive.PrefixCode
import ModRemap.Archive.PrefixCode.Shortest

/-! Deflating data. -/

namespace ModRemap.Deflate

open Bits PrefixCode

/-! ### Symbols -/

/-- A range of numbers, and the bits of a number in it. -/
structure Ranged where
  symbol : Nat
  bits : List Bool
deriving DecidableEq, Repr

/-- The last range that begins at a number or before it. -/
def rangeOf (ranges : List (Nat × Nat)) (value : Nat) : Ranged :=
  match (ranges.zipIdx.filter fun p => p.1.1 ≤ value).getLast? with
  | none => ⟨0, []⟩
  | some ((first, bits), symbol) => ⟨symbol, ofNumber bits (value - first)⟩

def lengthSymbol (c : Copy) : Ranged :=
  let range := rangeOf lengthRanges c.length
  { range with symbol := endSymbol + 1 + range.symbol }

def distanceSymbol (c : Copy) : Ranged := rangeOf distanceRanges c.distance

def Token.symbol : Token → Nat
  | .byte b => b.toNat
  | .copy c => (lengthSymbol c).symbol

def Token.distance? : Token → Option Nat
  | .byte _ => none
  | .copy c => some (distanceSymbol c).symbol

/-- How often the symbols from 0 on occur. -/
def tally (count : Nat) (symbols : List Nat) : List Nat :=
  (symbols.foldl (fun counts s => counts.modify s (· + 1)) (Array.replicate count 0)).toList

/-! ### Codes of a block -/

/-- The lengths of words for symbols and for distances. -/
abbrev Lengths := List Nat × List Nat

def ownLengths (tokens : List Token) : Lengths :=
  (shortestLengths 15 (tally 286 (endSymbol :: tokens.map Token.symbol)),
    shortestLengths 15 (tally 30 (tokens.filterMap Token.distance?)))

/-- Without the zeros at the end, as far as so many numbers are left. -/
def trimmed (least : Nat) (s : List Nat) : List Nat :=
  s.take (max least (s.length - (s.reverse.takeWhile (· = 0)).length))

/-- A number among the lengths of words: a length, or the count of repeated ones in more bits. -/
structure Item where
  symbol : Nat
  bits : List Bool := []
deriving DecidableEq, Repr

def zeros (count : Nat) : List Item :=
  let rest := count % 138
  List.replicate (count / 138) ⟨18, ofNumber 7 127⟩ ++
    (if rest < 3 then List.replicate rest ⟨0, []⟩
    else if rest < 11 then [⟨17, ofNumber 3 (rest - 3)⟩]
    else [⟨18, ofNumber 7 (rest - 11)⟩])

def repeats (length count : Nat) : List Item :=
  let rest := count % 6
  List.replicate (count / 6) ⟨16, ofNumber 2 3⟩ ++
    (if rest < 3 then List.replicate rest ⟨length, []⟩ else [⟨16, ofNumber 2 (rest - 3)⟩])

def itemsOfRun : List Nat → List Item
  | [] => []
  | 0 :: rest => zeros (rest.length + 1)
  | length :: rest => ⟨length, []⟩ :: repeats length rest.length

/-- The lengths of both codes in one go; runs may go over from one to the other. -/
def itemsOf (lengths : Lengths) : List Item :=
  ((lengths.1 ++ lengths.2).splitBy (· = ·)).flatMap itemsOfRun

/-- How a block tells its codes. -/
def describe (lengths : Lengths) : List Bool :=
  let lengths : Lengths := (trimmed 257 lengths.1, trimmed 1 lengths.2)
  let items := itemsOf lengths
  let own := shortestLengths 7 (tally 19 (items.map Item.symbol))
  let order := trimmed 4 (lengthOrder.map fun symbol => own.getD symbol 0)
  let words := words 7 own
  ofNumber 5 (lengths.1.length - 257) ++ ofNumber 5 (lengths.2.length - 1) ++
    ofNumber 4 (order.length - 4) ++ order.flatMap (ofNumber 3) ++
    items.flatMap fun i => words.getD i.symbol [] ++ i.bits

/-! ### Blocks -/

/-- The tokens of a block, and its end. -/
def encode (lengths : Lengths) (tokens : List Token) : List Bool :=
  let symbols := words 15 lengths.1
  let distances := words 15 lengths.2
  let bitsOf : Token → List Bool
    | .byte b => symbols.getD b.toNat []
    | .copy c =>
      let length := lengthSymbol c
      let distance := distanceSymbol c
      symbols.getD length.symbol [] ++ length.bits ++ distances.getD distance.symbol [] ++
        distance.bits
  tokens.flatMap bitsOf ++ symbols.getD endSymbol []

/-- A small block does without codes of its own. -/
def codedBits (b : Block) : List Bool :=
  let tokens := b.tokens.toList
  if b.size < 48 then [true, false] ++ encode commonLengths tokens
  else
    let lengths := ownLengths tokens
    [false, true] ++ describe lengths ++ encode lengths tokens

/-- Bits that lead to a whole byte. -/
def padding (position : Nat) : List Bool := List.replicate ((8 - position % 8) % 8) false

/-- The bytes of a block as they are, from the next whole byte on. -/
def plainBits (data : Array UInt8) (position : Nat) (b : Block) : List Bool :=
  [false, false] ++ padding (position + 2) ++ ofNumber 16 b.size ++ ofNumber 16 (0xFFFF - b.size) ++
    upward ((data.toList.drop b.start).take b.size)

/-- A block that would grow is left as it is, if its bytes are still at hand. -/
def blockBits (data : Array UInt8) (position : Nat) (b : Block) : List Bool :=
  let coded := codedBits b
  let bytes := (position + coded.length) / 8 - position / 8
  if 32 < b.size && b.size ≤ bytes + 1 && b.isHeld then plainBits data position b else coded

def writeBlocks (data : Array UInt8) : (position : Nat) → List Block → List Bool
  | _, [] => []
  | position, b :: rest =>
    let bits := rest.isEmpty :: blockBits data (position + 1) b
    bits ++ writeBlocks data (position + bits.length) rest

/-- The deflated data. -/
def write (s : Bytes) : Bytes :=
  let data := s.toArray
  toBytes (writeBlocks data 0 (blocksOf data))

end ModRemap.Deflate
