import ModRemap.Text.Blank

/-! Cutting text into pieces. Everything works on lists of characters; nothing is lost unless a
name says so. -/

namespace ModRemap.Text

/-- What follows `head` in `s`, when `s` starts with it. -/
def dropStart? : (head s : List Char) → Option (List Char)
  | [], s => some s
  | _ :: _, [] => none
  | a :: head, c :: s => if a = c then dropStart? head s else none

/-- What precedes `tail` in `s`, when `s` ends with it. -/
def dropEnd? (tail s : List Char) : Option (List Char) :=
  (dropStart? tail.reverse s.reverse).map List.reverse

theorem dropStart?_eq_some_iff {head s r : List Char} :
    dropStart? head s = some r ↔ s = head ++ r := by
  induction head generalizing s with
  | nil => simp [dropStart?, eq_comm]
  | cons a head ih =>
    cases s with
    | nil => simp [dropStart?]
    | cons c s =>
      by_cases h : a = c
      · simp [dropStart?, h, ih]
      · simp [dropStart?, h, Ne.symm h]

theorem dropEnd?_eq_some_iff {tail s r : List Char} :
    dropEnd? tail s = some r ↔ s = r ++ tail := by
  simp only [dropEnd?, Option.map_eq_some_iff, dropStart?_eq_some_iff]
  constructor
  · rintro ⟨a, h, rfl⟩
    simpa using congrArg List.reverse h
  · rintro rfl
    exact ⟨r.reverse, by simp, by simp⟩

/-- The parts before and after the first `sep`. -/
def cut? (sep : Char) : List Char → Option (List Char × List Char)
  | [] => none
  | c :: s => if c = sep then some ([], s) else (cut? sep s).map fun p => (c :: p.1, p.2)

theorem cut?_eq_some_iff {sep : Char} {s front back : List Char} :
    cut? sep s = some (front, back) ↔ s = front ++ sep :: back ∧ sep ∉ front := by
  induction s generalizing front with
  | nil => simp [cut?]
  | cons c s ih =>
    by_cases same : c = sep
    · cases front with
      | nil => simp [cut?, same, eq_comm]
      | cons d front => simp [cut?, same]; grind
    · cases front with
      | nil => simp [cut?, same]
      | cons d front => simp [cut?, same, ih]; grind

/-- The parts before and after the last `sep`. -/
def cutLast? (sep : Char) (s : List Char) : Option (List Char × List Char) :=
  (cut? sep s.reverse).map fun p => (p.2.reverse, p.1.reverse)

/-- The pieces between the separators, one more than there are separators. -/
def fields (sep : Char) : List Char → List (List Char)
  | [] => [[]]
  | c :: s =>
    if c = sep then [] :: fields sep s
    else match fields sep s with
      | [] => [[c]]
      | f :: fs => (c :: f) :: fs

/-- The pieces up to and including each line feed; nothing follows the last one. -/
def linesKept : List Char → List (List Char)
  | [] => []
  | c :: s =>
    if c = '\n' then [c] :: linesKept s
    else match linesKept s with
      | [] => [[c]]
      | l :: ls => (c :: l) :: ls

/-- Drops a line end, which is a line feed with at most one carriage return before it. -/
def chomp (line : List Char) : List Char :=
  match dropEnd? ['\n'] line with
  | none => line
  | some l => (dropEnd? ['\r'] l).getD l

def lines (s : List Char) : List (List Char) := (linesKept s).map chomp

def dropWhileEnd (p : Char → Bool) (s : List Char) : List Char :=
  (s.reverse.dropWhile p).reverse

def trim (s : List Char) : List Char := dropWhileEnd isBlank (s.dropWhile isBlank)

/-- The longest runs of characters that are not blank. -/
def words (s : List Char) : List (List Char) :=
  (s.foldr (fun c acc => if isBlank c then [] :: acc else match acc with
    | [] => [[c]]
    | w :: ws => (c :: w) :: ws) [[]]).filter (· ≠ [])

/-- The pieces joined with `sep` between them. -/
def join (sep : String) (parts : List String) : String := sep.intercalate parts

def lower (s : List Char) : List Char := s.map Char.toLower

def upper (s : List Char) : List Char := s.map Char.toUpper

theorem flatten_linesKept (s : List Char) : (linesKept s).flatten = s := by
  induction s with
  | nil => rfl
  | cons c s ih =>
    rw [linesKept]
    split
    · simp [ih]
    · split
      · next h => rw [h] at ih; simp [← ih]
      · next h => rw [h] at ih; simp [← ih]

theorem linesKept_append {l : List Char} (one : '\n' ∉ l) (s : List Char) :
    linesKept (l ++ '\n' :: s) = (l ++ ['\n']) :: linesKept s := by
  induction l with
  | nil => rw [List.nil_append, linesKept, if_pos rfl, List.nil_append]
  | cons c l ih =>
    obtain ⟨other, one⟩ := not_or.mp (mt List.mem_cons.mpr one)
    rw [List.cons_append, linesKept, if_neg (Ne.symm other), ih one, List.cons_append]

end ModRemap.Text

namespace ModRemap

/-- `s` starts with `head`. -/
def starts (head : String) (s : String) : Bool := (Text.dropStart? head.toList s.toList).isSome

def ends (tail : String) (s : String) : Bool := (Text.dropEnd? tail.toList s.toList).isSome

theorem starts_iff {head s : String} :
    starts head s = true ↔ ∃ rest, s.toList = head.toList ++ rest := by
  rw [starts, Option.isSome_iff_exists]
  exact exists_congr fun _ => Text.dropStart?_eq_some_iff

theorem ends_iff {tail s : String} :
    ends tail s = true ↔ ∃ front, s.toList = front ++ tail.toList := by
  rw [ends, Option.isSome_iff_exists]
  exact exists_congr fun _ => Text.dropEnd?_eq_some_iff

end ModRemap
