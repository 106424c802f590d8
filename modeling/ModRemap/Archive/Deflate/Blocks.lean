import ModRemap.Archive.Deflate.Repeats

/-! Data as blocks of bytes and copies. A copy is put off for one byte, because a longer one may
start there. -/

namespace ModRemap.Deflate

inductive Token where
  | byte (b : UInt8)
  | copy (c : Copy)
deriving DecidableEq, Repr

def Token.size : Token → Nat
  | .byte _ => 1
  | .copy c => c.length

/-- What a token takes while it waits for its block to be written. -/
def Token.room : Token → Nat
  | .byte _ => 1
  | .copy _ => 3

/-! ### Choice -/

/-- A copy of three bytes from far away saves nothing. -/
def isUseful (pos : Nat) (c : Copy) : Bool :=
  !(c.length = 3 && 0x2000 ≤ c.distance) && pos % reach ≠ c.distance

/-- Copies of this length are not put off. -/
def longEnough : Nat := 128

/-- The tokens that are certain at a position, the copy that is put off, and how many bytes this
settles. -/
def settle (data : Array UInt8) (pos : Nat) (pending : Option Copy) (found : Copy) :
    List Token × Option Copy × Nat :=
  let byte (i : Nat) : Token := .byte (data.getD i 0)
  match pending with
  | some before =>
    if !isUseful pos found || found.length ≤ before.length then
      ([.copy before], none, before.length - 1)
    else if longEnough ≤ found.length then ([byte (pos - 1), .copy found], none, found.length)
    else ([byte (pos - 1)], some found, 1)
  | none =>
    if !isUseful pos found || found.distance = 0 then ([byte pos], none, 1)
    else if longEnough ≤ found.length then ([.copy found], none, found.length)
    else ([], some found, 1)

/-! ### Blocks -/

/-- Tokens that are written together, and the bytes that they stand for. -/
structure Block where
  start : Nat := 0
  size : Nat := 0
  tokens : Array Token := #[]
  room : Nat := 1
  /-- All of its bytes are still at hand. -/
  isHeld : Bool := true
deriving DecidableEq, Repr

/-- Eight tokens take one more. -/
def Block.add (b : Block) (t : Token) : Block :=
  let ⟨start, size, tokens, room, isHeld⟩ := b
  let tokens := tokens.push t
  ⟨start, size + t.size, tokens, room + t.room + (if tokens.size % 8 = 0 then 1 else 0), isHeld⟩

/-- A block ends when there is no room for more tokens, or when it is large and copies save
little. -/
def Block.isFull (b : Block) : Bool :=
  0xFFF8 < b.room || (31 * 0x400 < b.size && b.size ≤ b.room * 115 / 128)

/-- Bytes within reach of the position are held. -/
def Block.finish (b : Block) (pos held : Nat) : Block := { b with isHeld := pos ≤ b.start + held }

/-- The blocks from a position on. `pending` starts one byte before it. -/
def blocksFrom (data : Array UInt8) :
    Nat → Nat → (held : Nat) → Chains → (pending : Option Copy) → Block → List Block
  | 0, _, _, _, _, _ => []
  | fuel + 1, pos, held, chains, pending, block =>
    if data.size ≤ pos then [block.finish pos held]
    else
      let chains := chains.insert data pos
      let found := chains.longer data pos (pending.elim 2 Copy.length)
      let (tokens, pending, settled) := settle data pos pending found
      let chains := chains.insertAll data (pos + 1) (settled - 1)
      let held := min reach (reachFrom data pos + settled)
      let pos := pos + settled
      let block := tokens.foldl Block.add block
      if block.isFull then
        block.finish pos held ::
          blocksFrom data fuel pos held chains pending { start := block.start + block.size }
      else blocksFrom data fuel pos held chains pending block

/-- All data as blocks; there is always a last one. -/
def blocksOf (data : Array UInt8) : List Block :=
  blocksFrom data (data.size + 1) 0 0 Chains.empty none {}

end ModRemap.Deflate
