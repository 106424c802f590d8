import ModRemap.Text.Utf8

/-! The steps that make a block easy to pack, undone: runs of equal bytes are counted, the block is
sorted by what follows each byte, and each byte is named by how recently it was used. -/

namespace ModRemap.Bzip2

/-- Names items by their places in a list, where the item just named moves to the front. -/
def recalled {α : Type} : List Nat → List α → Option (List α)
  | [], _ => some []
  | i :: places, recent => do
    let a ← recent[i]?
    return a :: (← recalled places (a :: recent.eraseIdx i))

/-- The bytes that symbols stand for. The first two symbols are digits that count how often the byte
in front comes; each digit weighs twice as much as the one before it. -/
def expand? (limit : Nat) : List Nat → List UInt8 → Nat → Array UInt8 → Option (Array UInt8)
  | [], _, _, out => some out
  | symbol :: symbols, recent, weight, out => do
    if symbol < 2 then
      let count := (symbol + 1) * weight
      if limit < out.size + count then none
      else expand? limit symbols recent (2 * weight) (out ++ Array.replicate count (← recent.head?))
    else
      let b ← recent[symbol - 1]?
      if limit ≤ out.size then none
      else expand? limit symbols (b :: recent.eraseIdx (symbol - 1)) 1 (out.push b)

/-- The places of the bytes when they are sorted; equal bytes keep their order. -/
def sortedPlaces (s : Array UInt8) : Array Nat :=
  (s.toList.zipIdx.foldl (fun places p => places.modify p.1.toNat (·.push p.2))
    (Array.replicate 256 #[])).flatten

/-- Goes from place to place and collects the bytes there. -/
def collect? (s : Array UInt8) (next : Array Nat) :
    Nat → Nat → Array UInt8 → Option (Array UInt8)
  | 0, _, out => some out
  | n + 1, place, out => do collect? s next n (← next[place]?) (out.push (← s[place]?))

/-- The block before it was sorted. The sorted block has its beginning at `start`. -/
def unsorted? (s : Array UInt8) (start : Nat) : Option (Array UInt8) := do
  let next := sortedPlaces s
  collect? s next s.size (← next[start]?) #[]

/-- After four equal bytes, a byte counts how many more there are. -/
def unpackRuns? : List UInt8 → Option UInt8 → Nat → Array UInt8 → Option (Array UInt8)
  | [], _, run, out => if run = 4 then none else some out
  | b :: s, last, run, out =>
    if run = 4 then unpackRuns? s none 0 (out ++ Array.replicate b.toNat (out.back?.getD 0))
    else unpackRuns? s (some b) (if last = some b then run + 1 else 1) (out.push b)

end ModRemap.Bzip2
