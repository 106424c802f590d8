import ModRemap.Toml.Draft
import ModRemap.Toml.Quoted
import ModRemap.Toml.Scalar

/-! Reading TOML documents. A step yields what it read and the rest. -/

namespace ModRemap.Toml

def skipSpace (s : List Char) : List Char := s.dropWhile isSpace

/-- Drops blanks, line ends and comments, also the rest of a comment that has begun. -/
def skipGap : (inComment : Bool) → List Char → List Char
  | _, [] => []
  | _, '\n' :: s => skipGap false s
  | _, '\r' :: '\n' :: s => skipGap false s
  | true, c :: s => if isPlain c then skipGap true s else c :: s
  | false, c :: s =>
    if isSpace c then skipGap false s else if c = '#' then skipGap true s else c :: s

/-- Drops blanks and a comment up to the end of the line, which is read too. -/
def readLineEnd (s : List Char) : Option (List Char) :=
  let s := skipSpace s
  let s := if s.head? = some '#' then s.dropWhile isPlain else s
  match s with
  | [] => some []
  | '\n' :: s => some s
  | '\r' :: '\n' :: s => some s
  | _ => none

/-! ### Keys -/

def isBare (c : Char) : Bool := c.isAlphanum || c = '_' || c = '-'

def readName (s : List Char) : Option (String × List Char) :=
  match s with
  | '"' :: _ => readShort s
  | '\'' :: _ => readShort s
  | _ =>
    let name := s.takeWhile isBare
    if name.isEmpty then none else some (String.ofList name, s.drop name.length)

/-- How many arrays, braces or names of a key may be nested, less one. -/
def nestingLimit : Nat := 79

/-- Names with dots between them. Blanks may stand around each name. -/
def readNames : Nat → Step Key
  | 0, _ => none
  | n + 1, s => do
    let (name, s) ← readName (skipSpace s)
    match skipSpace s with
    | '.' :: s => do
      let (key, s) ← readNames n s
      return (⟨name :: key.tables, key.name⟩, s)
    | s => return (⟨[], name⟩, s)

def readKey : Step Key := readNames nestingLimit

/-! ### Values -/

mutual

/-- Reads a value with brackets nested at most `depth` deep. The first argument bounds the calls. -/
def readValue : Nat → (depth : Nat) → Step Toml
  | 0, _, _ => none
  | _ + 1, 0, '[' :: _ => none
  | _ + 1, 0, '\x7b' :: _ => none
  | n + 1, depth + 1, '[' :: s =>
    (readItems n depth (skipGap false s)).map fun p => (.array p.1, p.2)
  | n + 1, depth + 1, '\x7b' :: s =>
    match skipSpace s with
    | '\x7d' :: s => some (.table [], s)
    | s => do
      let (entries, s) ← readEntries n depth s
      return (← ofEntries? entries, s)
  | _ + 1, _, '"' :: s => (readString ('"' :: s)).map fun p => (.string p.1, p.2)
  | _ + 1, _, '\'' :: s => (readString ('\'' :: s)).map fun p => (.string p.1, p.2)
  | _ + 1, _, s =>
    let (word, rest) := Scalar.word s
    if Scalar.isScalar word then some (.scalar (String.ofList word), rest) else none

/-- The rest of an array; a comma may stand before the closing bracket. -/
def readItems : Nat → (depth : Nat) → Step (List Toml)
  | 0, _, _ => none
  | _ + 1, _, ']' :: s => some ([], s)
  | n + 1, depth, s => do
    let (item, s) ← readValue n depth s
    match skipGap false s with
    | ',' :: s => do
      let (items, s) ← readItems n depth (skipGap false s)
      return (item :: items, s)
    | ']' :: s => return ([item], s)
    | _ => none

def readEntries : Nat → (depth : Nat) → Step (List (Key × Toml))
  | 0, _, _ => none
  | n + 1, depth, s => do
    let (key, s) ← readKey s
    match s with
    | '=' :: s => do
      let (v, s) ← readValue n depth (skipSpace s)
      match skipSpace s with
      | ',' :: s => do
        let (entries, s) ← readEntries n depth s
        return ((key, v) :: entries, s)
      | '\x7d' :: s => return ([(key, v)], s)
      | _ => none
    | _ => none

end

/-! ### Lines -/

def readStatement (s : List Char) : Option (Statement × List Char) :=
  match s with
  | '[' :: '[' :: s => do
    match ← readKey s with
    | (key, ']' :: ']' :: s) => return (.item key, ← readLineEnd s)
    | _ => none
  | '[' :: s => do
    match ← readKey s with
    | (key, ']' :: s) => return (.table key, ← readLineEnd s)
    | _ => none
  | s => do
    match ← readKey s with
    | (key, '=' :: s) => do
      let (v, s) ← readValue (2 * s.length + 2) nestingLimit (skipSpace s)
      return (.set key v, ← readLineEnd s)
    | _ => none

def readStatements : Nat → List Char → Option (List Statement)
  | 0, _ => none
  | n + 1, s =>
    match skipGap false s with
    | [] => some []
    | s => do
      let (statement, s) ← readStatement s
      return statement :: (← readStatements n s)

/-- Reads a document; a byte order mark may come first. -/
def parse? (text : String) : Option Toml := do
  let s := match text.toList with
    | '\uFEFF' :: s => s
    | s => s
  ofStatements? (← readStatements (s.length + 1) s)

end ModRemap.Toml
