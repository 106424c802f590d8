import ModRemap.Archive.Bits

/-! Codes with states. A state names a symbol, and some bits lead from it to the next state; the
more states name a symbol, the fewer bits it takes. -/

namespace ModRemap.Zstandard

open Bits

structure StateCell where
  symbol : Nat
  /-- How many bits lead on, and the state that they are added to. -/
  bits : Nat
  base : Nat
deriving DecidableEq, Inhabited, Repr

structure StateCode where
  /-- As many bits lead to the first state. -/
  log : Nat
  cells : Array StateCell
deriving DecidableEq, Repr

/-- How many states name a symbol. A rare symbol has one as well, but all bits lead on from it. -/
inductive Share where
  | rare
  | states (count : Nat)
deriving DecidableEq, Repr

def Share.count : Share → Nat
  | .rare => 1
  | .states n => n

/-- So many symbols without a state, two bits at a time; three means that there are more. -/
def absent : Nat → Reading Nat
  | 0 => failure
  | fuel + 1 => do
    let n ← rising 2
    if n = 3 then return 3 + (← absent fuel) else return n

/-- A number up to the limit. Small numbers take one bit less than the others, where there is room
for it. -/
def upTo (limit : Nat) : Reading Nat := do
  let log := Nat.log2 limit
  let spare := (1 <<< (log + 1)) - 1 - limit
  let low ← rising log
  if low < spare then return low
  else if (← bit) = 0 then return low
  else return low + (1 <<< log) - spare

/-- The shares of the symbols from 0 on; `left` is one more than the states that are left. -/
def sharesFrom (symbols : Nat) : Nat → Nat → List Share → Reading (List Share)
  | 0, _, _ => failure
  | fuel + 1, left, found => do
    if symbols < found.length then failure
    else if left = 1 then return found.reverse
    else
      match ← upTo left with
      | 0 => sharesFrom symbols fuel (left - 1) (.rare :: found)
      | 1 =>
        let more ← if found.length + 1 < symbols then absent symbols else failure
        sharesFrom symbols fuel left (List.replicate (more + 1) (.states 0) ++ found)
      | n + 2 => sharesFrom symbols fuel (left - (n + 1)) (.states (n + 1) :: found)

/-- Where the states of common symbols lie, one after the other; rare ones take the end. -/
def spread (size rares : Nat) : List Nat :=
  let step := size / 2 + size / 8 + 3
  ((List.range size).map fun k => k * step % size).filter (· < size - rares)

/-- The symbols of all states. -/
def symbolsOf (size : Nat) (shares : List Share) : Array Nat :=
  let rares := (shares.zipIdx.filter fun p => p.1 = .rare).map Prod.snd
  let common := shares.zipIdx.flatMap fun p =>
    match p.1 with
    | .rare => []
    | .states n => List.replicate n p.2
  let places := spread size rares.length ++ (List.range rares.length).map (size - 1 - ·)
  (places.zip (common ++ rares)).foldl (fun symbols p => symbols.setIfInBounds p.1 p.2)
    (Array.replicate size 0)

/-- The states of a symbol, in their order, share out the numbers that lead to them. -/
def StateCode.ofShares (log : Nat) (shares : List Share) : StateCode :=
  let size := 1 <<< log
  let step (done : Array Nat × Array StateCell) (symbol : Nat) : Array Nat × Array StateCell :=
    let number := done.1.getD symbol 1
    let bits := log - Nat.log2 number
    (done.1.setIfInBounds symbol (number + 1),
      done.2.push ⟨symbol, bits, (number <<< bits) - size⟩)
  ⟨log, ((symbolsOf size shares).foldl step ((shares.map Share.count).toArray, #[])).2⟩

/-- A code of one symbol, which takes no bits. -/
def StateCode.single (symbol : Nat) : StateCode := ⟨0, #[⟨symbol, 0, 0⟩]⟩

/-- The description of a code for at most so many symbols. -/
def stateCode (symbols longest : Nat) : Reading StateCode := do
  let log := 5 + (← rising 4)
  if longest < log then failure
  return .ofShares log (← sharesFrom symbols ((1 <<< log) + symbols + 1) ((1 <<< log) + 1) [])

namespace StateCode

def first (c : StateCode) : Reading Nat := falling c.log

def cell (c : StateCode) (state : Nat) : Reading StateCell := liftM c.cells[state]?

def next (cell : StateCell) : Reading Nat := do return cell.base + (← falling cell.bits)

end StateCode

end ModRemap.Zstandard
