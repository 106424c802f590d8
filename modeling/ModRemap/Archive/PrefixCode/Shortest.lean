import ModRemap.Text.Utf8

/-! Lengths of words that make data short: the more often a symbol occurs, the shorter its word. -/

namespace ModRemap.PrefixCode

/-! ### Merging -/

/-- Symbols that have been merged: how often they occur, and how many bits each one takes so far. -/
structure Merged where
  weight : Nat
  bits : List Nat
deriving DecidableEq, Repr

def merge (a b : Merged) : Merged := ⟨a.weight + b.weight, (a.bits ++ b.bits).map (· + 1)⟩

/-- Puts it behind those that are as light. -/
def insertByWeight (m : Merged) : List Merged → List Merged
  | [] => [m]
  | a :: rest => if a.weight ≤ m.weight then a :: insertByWeight m rest else m :: a :: rest

theorem length_insertByWeight (m : Merged) (ms : List Merged) :
    (insertByWeight m ms).length = ms.length + 1 := by
  induction ms with
  | nil => rfl
  | cons a rest ih =>
    rw [insertByWeight]
    split
    · simp only [List.length_cons, ih]
    · rfl

/-- Merges the two lightest ones, again and again. -/
def mergeAll : List Merged → List Nat
  | [] => []
  | [a] => a.bits
  | a :: b :: rest => mergeAll (insertByWeight (merge a b) rest)
termination_by ms => ms.length
decreasing_by simp [length_insertByWeight]

/-! ### Limits -/

/-- The first number that is not zero behind the head loses one, and the one before it gains two. -/
def splitNext : List Nat → List Nat
  | a :: b :: rest => if b = 0 then a :: splitNext (b :: rest) else (a + 2) :: (b - 1) :: rest
  | counts => counts

/-- One of the longest words goes, and the longest of the others is split, so that there are as many
words as before. -/
def tighten : List Nat → List Nat
  | [] => []
  | a :: rest => splitNext ((a - 1) :: rest)

/-- How many words there are of each length, from the longest one on. Words beyond the limit are cut
to it, and others are split until all words find room. -/
def countsWithin (limit : Nat) (lengths : List Nat) : List Nat :=
  let counts := (List.range limit).map fun n => (lengths.map (min limit)).count (limit - n)
  let room := (counts.zipIdx.map fun p => p.1 <<< p.2).foldr (· + ·) 0
  Nat.repeat tighten (room - (1 <<< limit)) counts

/-! ### Lengths -/

/-- The lengths of the words of the symbols from 0 on, which occur so often. A symbol that does not
occur has none; the rarest have the longest. -/
def shortestLengths (limit : Nat) (counts : List Nat) : List Nat :=
  let used := (counts.zipIdx.filter fun p => p.1 ≠ 0).mergeSort fun p q => p.1 ≤ q.1
  let lengths := match used with
    | [_] => [1]
    | _ => mergeAll (used.map fun p => ⟨p.1, [0]⟩)
  let sorted := (countsWithin limit lengths).zipIdx.flatMap fun p =>
    List.replicate p.1 (limit - p.2)
  ((used.zip sorted).foldl (fun found p => found.setIfInBounds p.1.2 p.2)
    (Array.replicate counts.length 0)).toList

end ModRemap.PrefixCode
