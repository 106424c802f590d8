import ModRemap.Archive.Repeat
import ModRemap.Archive.Zstandard.StateCode

/-! The sequences of a block. Each one takes literals, and then repeats what stands before. -/

namespace ModRemap.Zstandard

open Bits

structure Sequence where
  literals : Nat
  /-- How far back the copy starts, plus three; smaller numbers name a recent distance. -/
  offset : Nat
  repeated : Nat
deriving DecidableEq, Repr

/-! ### Codes -/

/-- The symbols of a code, the most bits that lead to its first state, and the code for blocks that
describe none. -/
structure Alphabet where
  symbols : Nat
  longest : Nat
  usual : StateCode

/-- The code of an alphabet whose last symbols are rare. -/
def usualCode (log : Nat) (shares : List Nat) (rares : Nat) : StateCode :=
  .ofShares log (shares.map .states ++ List.replicate rares .rare)

def literalNumbers : Alphabet where
  symbols := 36
  longest := 9
  usual := usualCode 6 ([4, 3] ++ List.replicate 11 2 ++ [1, 1, 1] ++ List.replicate 9 2 ++
    [3, 2] ++ List.replicate 5 1) 4

def offsets : Alphabet where
  symbols := 32
  longest := 8
  usual := usualCode 5 (List.replicate 6 1 ++ [2, 2, 2] ++ List.replicate 15 1) 5

def repeatedNumbers : Alphabet where
  symbols := 53
  longest := 9
  usual := usualCode 6 ([1, 4, 3] ++ List.replicate 6 2 ++ List.replicate 37 1) 7

def literalRanges : List (Nat × Nat) :=
  ranges 0 (List.replicate 16 0 ++ [1, 1, 1, 1, 2, 2, 3, 3, 4] ++ (List.range 11).map (· + 6))

def repeatedRanges : List (Nat × Nat) :=
  ranges 3 (List.replicate 32 0 ++ [1, 1, 1, 1, 2, 2, 3, 3, 4, 4, 5] ++
    (List.range 10).map (· + 7))

/-- The codes of a block with sequences. -/
structure SequenceCodes where
  literals : StateCode
  offsets : StateCode
  repeated : StateCode
deriving DecidableEq, Repr

/-- The code of an alphabet, in one of four modes, and the bytes behind its description. -/
def code? (a : Alphabet) (mode : Nat) (known : Option StateCode) (s : Bytes) :
    Option (StateCode × Bytes) :=
  match mode with
  | 0 => some (a.usual, s)
  | 1 => do
    let symbol ← s.head?
    if a.symbols ≤ symbol.toNat then none
    return (.single symbol.toNat, s.tail)
  | 2 => part? (stateCode a.symbols a.longest) s
  | _ => known.map (·, s)

/-- A byte tells the modes; its last two bits are not set. -/
def codes? (known : Option SequenceCodes) (s : Bytes) : Option (SequenceCodes × Bytes) := do
  let modes := (← s.head?).toNat
  if modes % 4 ≠ 0 then none
  let (literals, s) ← code? literalNumbers (modes / 64) (known.map (·.literals)) s.tail
  let (offsets, s) ← code? offsets (modes / 16 % 4) (known.map (·.offsets)) s
  let (repeated, s) ← code? repeatedNumbers (modes / 4 % 4) (known.map (·.repeated)) s
  return (⟨literals, offsets, repeated⟩, s)

/-! ### Sections -/

def numberIn (ranges : List (Nat × Nat)) (symbol : Nat) : Reading Nat := do
  let (first, bits) ← liftM ranges[symbol]?
  return first + (← falling bits)

/-- The states of the three codes. -/
structure States where
  literals : Nat
  offset : Nat
  repeated : Nat
deriving DecidableEq, Repr

/-- So many sequences. No state follows the last one. -/
def sequencesFrom (c : SequenceCodes) : Nat → States → Reading (List Sequence)
  | 0, _ => return []
  | n + 1, states => do
    let ofLiterals ← c.literals.cell states.literals
    let ofOffset ← c.offsets.cell states.offset
    let ofRepeated ← c.repeated.cell states.repeated
    let offset := (1 <<< ofOffset.symbol) + (← falling ofOffset.symbol)
    let repeated ← numberIn repeatedRanges ofRepeated.symbol
    let literals ← numberIn literalRanges ofLiterals.symbol
    if n = 0 then return [⟨literals, offset, repeated⟩]
    let nextLiterals ← StateCode.next ofLiterals
    let nextRepeated ← StateCode.next ofRepeated
    let nextOffset ← StateCode.next ofOffset
    return ⟨literals, offset, repeated⟩ ::
      (← sequencesFrom c n ⟨nextLiterals, nextOffset, nextRepeated⟩)

def sequences (c : SequenceCodes) (count : Nat) : Reading (List Sequence) := do
  let literals ← c.literals.first
  let offset ← c.offsets.first
  let repeated ← c.repeated.first
  sequencesFrom c count ⟨literals, offset, repeated⟩

/-- How many sequences there are, in one to three bytes, and the bytes behind. -/
def sequenceCount? : Bytes → Option (Nat × Bytes)
  | [] => none
  | a :: s =>
    if a < 128 then some (a.toNat, s)
    else if a < 255 then s.head?.map fun b => (256 * (a.toNat - 128) + b.toNat, s.tail)
    else part? (return 0x7F00 + (← rising 16)) s

/-- The sequences of a section, which take all of it, and the codes to be used again. -/
def sequences? (known : Option SequenceCodes) (s : Bytes) :
    Option (List Sequence × Option SequenceCodes) := do
  let (count, s) ← sequenceCount? s
  if count = 0 then
    if s = [] then return ([], known) else none
  else
    let (c, s) ← codes? known s
    let (found, rest) ← (sequences c count).run (← backward? s)
    if rest = [] then return (found, some c) else none

/-! ### Effect -/

/-- The last three distances, the newest first. -/
structure Recent where
  first : Nat := 1
  second : Nat := 4
  third : Nat := 8
deriving DecidableEq, Repr

def Recent.push (r : Recent) (distance : Nat) : Recent := ⟨distance, r.first, r.second⟩

/-- The distance that a sequence means. After no literals the first recent one would continue the
copy before, so that the numbers name the next ones. -/
def Recent.distance? (r : Recent) (s : Sequence) : Option (Nat × Recent) :=
  if 3 < s.offset then some (s.offset - 3, r.push (s.offset - 3))
  else
    match if s.literals = 0 then s.offset + 1 else s.offset with
    | 1 => some (r.first, r)
    | 2 => some (r.second, ⟨r.second, r.first, r.third⟩)
    | 3 => some (r.third, r.push r.third)
    | _ => if r.first = 1 then none else some (r.first - 1, r.push (r.first - 1))

/-- Carries out sequences; the literals that are left come last. -/
def execute? : List Sequence → Bytes → Recent → Array UInt8 → Option (Array UInt8 × Recent)
  | [], literals, recent, out => some (out ++ literals.toArray, recent)
  | s :: rest, literals, recent, out => do
    let (distance, recent) ← recent.distance? s
    if literals.length < s.literals then none
    let out := out ++ (literals.take s.literals).toArray
    if out.size < distance then none
    execute? rest (literals.drop s.literals) recent (repeatBack distance s.repeated out)

end ModRemap.Zstandard
