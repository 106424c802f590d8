import ModRemap.Archive.PrefixCode
import ModRemap.Archive.Zstandard.StateCode

/-! The literals of a block: the bytes that are not copied from before. -/

namespace ModRemap.Zstandard

open Bits

/-! ### Codes of literals -/

/-- Weights in a state code, read backwards. Two states take turns, until the bits for the next
state are missing; the other state still names a weight. -/
def weightsFrom (c : StateCode) : Nat → (state other : Nat) → List Nat → Reading (List Nat)
  | 0, _, _, _ => failure
  | fuel + 1, state, other, found => do
    let cell ← c.cell state
    let found := cell.symbol :: found
    let next ← fun s =>
      some (((StateCode.next cell).run s).elim (none, []) fun p => (some p.1, p.2))
    match next with
    | none => return ((← c.cell other).symbol :: found).reverse
    | some next => weightsFrom c fuel other next found

def packedWeights? (s : Bytes) : Option (List Nat) := do
  let (c, s) ← part? (stateCode 256 6) s
  let read : Reading (List Nat) := do
    let state ← c.first
    let other ← c.first
    weightsFrom c 254 state other []
  return (← read.run (← backward? s)).1

/-- The weights of all symbols but the last, four bits each or packed, and the bytes behind. -/
def weights? : Bytes → Option (List Nat × Bytes)
  | [] => none
  | size :: s =>
    if size < 128 then
      if s.length < size.toNat then none
      else (packedWeights? (s.take size.toNat)).map (·, s.drop size.toNat)
    else
      let count := size.toNat - 127
      let bytes := (count + 1) / 2
      if s.length < bytes then none
      else
        let nibbles := (s.take bytes).flatMap fun b => [b.toNat / 16, b.toNat % 16]
        some (nibbles.take count, s.drop bytes)

/-- The code that weights tell: a symbol of the next weight has a word that is one bit shorter. The
last symbol fills up the code. Long words are the lowest numbers here, so that bits are to be read
inverted. -/
def codeOfWeights? (weights : List Nat) : Option PrefixCode := do
  let sum := (weights.map fun w => (1 <<< w) / 2).foldr (· + ·) 0
  if sum = 0 || weights.any (12 < ·) then none
  let log := Nat.log2 sum + 1
  let rest := (1 <<< log) - sum
  let all := weights ++ [Nat.log2 rest + 1]
  if 12 < log || 1 <<< Nat.log2 rest ≠ rest then none
  let ones := all.count 1
  if ones < 2 || ones % 2 = 1 then none
  let lengths := all.map fun w => if w = 0 then 0 else log + 1 - w
  let c := PrefixCode.ofLengths log lengths.reverse
  return { c with symbols := c.symbols.map (all.length - 1 - ·) }

/-! ### Streams -/

/-- So many symbols, which take all bits of a stream. -/
def stream? (c : PrefixCode) (count : Nat) (s : Bytes) : Option Bytes := do
  let bits := (← backward? s).map (!·)
  let (symbols, rest) ← ((List.replicate count c).mapM PrefixCode.symbol).run bits
  if rest = [] then return symbols.map UInt8.ofNat else none

/-- Four streams, behind the sizes of the first three. -/
def fourStreams? (c : PrefixCode) (count : Nat) (s : Bytes) : Option Bytes := do
  if s.length < 10 || count < 6 then none
  let (sizes, s) ← part? ((List.range 3).mapM fun _ => rising 16) s
  let quarter := (count + 3) / 4
  if s.length < sizes.foldr (· + ·) 0 || count < 3 * quarter then none
  let step (done : Bytes × Bytes) (size : Nat) : Option (Bytes × Bytes) := do
    return (done.1 ++ (← stream? c quarter (done.2.take size)), done.2.drop size)
  let (out, s) ← sizes.foldlM step ([], s)
  return out ++ (← stream? c (count - 3 * quarter) s)

/-! ### Sections -/

/-- What a section says of its literals: raw ones and a single one have a size, packed ones have
sizes before and after, and come in one or four streams. -/
inductive LiteralsHeader where
  | raw (size : Nat)
  | single (size : Nat)
  | packed (newCode fourfold : Bool) (size packedSize : Nat)
deriving DecidableEq, Repr

def plainSize : Reading Nat := do
  if (← bit) = 0 then rising 5
  else if (← bit) = 0 then rising 12
  else rising 20

def literalsHeader : Reading LiteralsHeader := do
  match ← rising 2 with
  | 0 => return .raw (← plainSize)
  | 1 => return .single (← plainSize)
  | kind =>
    let format ← rising 2
    let width := if format < 2 then 10 else if format = 2 then 14 else 18
    return .packed (kind = 2) (format ≠ 0) (← rising width) (← rising width)

/-- The literals, the code to be used again, and the bytes behind. No block has more than `limit`
literals. -/
def literals? (limit : Nat) (known : Option PrefixCode) (s : Bytes) :
    Option (Bytes × Option PrefixCode × Bytes) := do
  let (header, rest) ← part? literalsHeader s
  match header with
  | .raw size =>
    if limit < size || rest.length < size then none
    else return (rest.take size, known, rest.drop size)
  | .single size =>
    if limit < size then none
    else return (List.replicate size (← rest.head?), known, rest.tail)
  | .packed newCode fourfold size packedSize =>
    if limit < size || s.length < 5 || rest.length < packedSize then none
    let body := rest.take packedSize
    let (c, body) ←
      if newCode then (weights? body).bind fun p => (codeOfWeights? p.1).map (·, p.2)
      else known.map (·, body)
    let out ← if fourfold then fourStreams? c size body else stream? c size body
    return (out, some c, rest.drop packedSize)

end ModRemap.Zstandard
