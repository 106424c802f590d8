import ModRemap.Archive.Bits

/-! Codes in which frequent symbols have short words. A code is given by the lengths of its words:
those of one length are consecutive numbers, in the order of their symbols. -/

namespace ModRemap

open Bits

/-- How many words of each length there are, from one bit on, and the symbols in the order of their
words. -/
structure PrefixCode where
  counts : List Nat
  symbols : List Nat
deriving DecidableEq, Repr

namespace PrefixCode

/-- The code whose symbols, from 0 on, have words of these lengths. Length 0 means no word. -/
def ofLengths (longest : Nat) (lengths : List Nat) : PrefixCode where
  counts := (List.range longest).map fun n => lengths.count (n + 1)
  symbols := (List.range longest).flatMap fun n =>
    (lengths.zipIdx.filter fun p => p.1 = n + 1).map Prod.snd

/-- Every sequence of bits begins with a word, and with one only. -/
def isComplete (c : PrefixCode) : Bool :=
  let longest := c.counts.length
  (c.counts.zipIdx.map fun p => p.1 <<< (longest - 1 - p.2)).foldr (· + ·) 0 = 1 <<< longest

/-- There is no word, or the only one has one bit. -/
def isTrivial (c : PrefixCode) : Bool :=
  c.symbols.length ≤ 1 && c.counts.tail.all (· = 0)

/-- Reads the word of a symbol; `first` is the first word of its length. -/
def symbolFrom (symbols : List Nat) : List Nat → (word first index : Nat) → Reading Nat
  | [], _, _, _ => failure
  | count :: counts, word, first, index => do
    let word := 2 * word + (← bit)
    let first := 2 * first
    if word < first + count then liftM symbols[index + (word - first)]?
    else symbolFrom symbols counts word (first + count) (index + count)

def symbol (c : PrefixCode) : Reading Nat := symbolFrom c.symbols c.counts 0 0 0

/-- The first word of a length. -/
def firstWord (lengths : List Nat) : Nat → Nat
  | 0 => 0
  | n + 1 => 2 * (firstWord lengths n + if n = 0 then 0 else lengths.count n)

/-- The words of the symbols from 0 on. Each is read from its highest bit on. -/
def words (longest : Nat) (lengths : List Nat) : Array (List Bool) :=
  let first := (Array.range (longest + 1)).map (firstWord lengths)
  (lengths.zipIdx.map fun p =>
    (ofNumber p.1 (first.getD p.1 0 + (lengths.take p.2).count p.1)).reverse).toArray

end PrefixCode

end ModRemap
