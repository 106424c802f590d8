import ModRemap.Text.Utf8

/-! Data as bits. Packed data are read bit by bit, and in some formats backwards. -/

namespace ModRemap.Bits

/-- The bits of a byte, from the lowest on. -/
def ofByte (b : UInt8) : List Bool := (List.range 8).map b.toNat.testBit

/-- All bits, those of each byte from the lowest on. -/
def upward (s : Bytes) : List Bool := s.flatMap ofByte

/-- All bits, those of each byte from the highest on. -/
def downward (s : Bytes) : List Bool := s.flatMap fun b => (ofByte b).reverse

/-- All bits from the last one back. The first that is set marks the end and does not count. -/
def backward? (s : Bytes) : Option (List Bool) := do
  let last ← s.getLast?
  if last = 0 then none
  return ((upward s).reverse.dropWhile (!·)).tail

abbrev Reading := StateT (List Bool) Option

def bit : Reading Nat := fun s =>
  match s with
  | [] => none
  | b :: s => some (b.toNat, s)

/-- A number of so many bits, the lowest first. -/
def rising : Nat → Reading Nat
  | 0 => return 0
  | n + 1 => do
    let low ← bit
    return low + 2 * (← rising n)

def fallingFrom : Nat → Nat → Reading Nat
  | 0, value => return value
  | n + 1, value => do fallingFrom n (2 * value + (← bit))

/-- A number of so many bits, the highest first. -/
def falling (n : Nat) : Reading Nat := fallingFrom n 0

/-- Reads a part of the data, and leaves the bytes that it does not touch. -/
def part? {α : Type} (read : Reading α) (s : Bytes) : Option (α × Bytes) := do
  let (a, rest) ← read.run (upward s)
  return (a, s.drop (s.length - rest.length / 8))

/-- Ranges of numbers, one after the other, with their first numbers; each is as long as its count
of bits allows. -/
def ranges : Nat → List Nat → List (Nat × Nat)
  | _, [] => []
  | first, bits :: rest => (first, bits) :: ranges (first + (1 <<< bits)) rest

/-- The bits of a number, the lowest first. -/
def ofNumber (n value : Nat) : List Bool := (List.range n).map value.testBit

/-- The bytes that bits make up, each from its lowest bit on; missing bits are not set. -/
def toBytes : List Bool → Bytes
  | [] => []
  | a :: s =>
    let value := ((a :: s.take 7).zipIdx.map fun p => p.1.toNat <<< p.2).foldr (· + ·) 0
    UInt8.ofNat value :: toBytes (s.drop 7)
termination_by s => s.length
decreasing_by
  rw [List.length_drop, List.length_cons]
  exact Nat.lt_succ_of_le (Nat.sub_le _ _)

end ModRemap.Bits
