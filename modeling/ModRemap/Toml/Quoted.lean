import ModRemap.Text.Digit

/-! The four forms of strings. A basic string has escapes and a literal one has none; a long string
is set in three quotes and may run over several lines, whose ends all read as line feeds. -/

namespace ModRemap.Toml

abbrev Step (α : Type) := List Char → Option (α × List Char)

def isSpace (c : Char) : Bool := c = ' ' || c = '\t'

/-- Any character but the control characters; a tab is allowed. -/
def isPlain (c : Char) : Bool := c = '\t' || (' ' ≤ c && c ≠ '\x7f')

/-- The character that one to the right of a backslash stands for. -/
def escaped? (c : Char) : Option Char :=
  if c = '"' || c = '\\' then some c
  else if c = 'b' then some '\x08'
  else if c = 'f' then some '\x0c'
  else if c = 'n' then some '\n'
  else if c = 'r' then some '\r'
  else if c = 't' then some '\t'
  else none

/-- The character with a number in hexadecimal digits. -/
def numbered? (digits : List Char) : Option Char :=
  let n := Text.natIn 16 digits
  if digits.all (Text.isDigitIn 16) && n.isValidChar then some (Char.ofNat n) else none

/-- The rest of a basic string and what follows its closing quote. -/
def readBasic : Step (List Char)
  | [] => none
  | '"' :: s => some ([], s)
  | '\\' :: 'u' :: a :: b :: c :: d :: s => do
    let e ← numbered? [a, b, c, d]
    let (cs, s) ← readBasic s
    return (e :: cs, s)
  | '\\' :: 'U' :: a :: b :: c :: d :: e :: f :: g :: h :: s => do
    let e ← numbered? [a, b, c, d, e, f, g, h]
    let (cs, s) ← readBasic s
    return (e :: cs, s)
  | '\\' :: c :: s => do
    let e ← escaped? c
    let (cs, s) ← readBasic s
    return (e :: cs, s)
  | c :: s =>
    if isPlain c && c ≠ '\\' then (readBasic s).map fun p => (c :: p.1, p.2) else none

def readLiteral : Step (List Char)
  | [] => none
  | '\'' :: s => some ([], s)
  | c :: s => if isPlain c then (readLiteral s).map fun p => (c :: p.1, p.2) else none

def startsLine : List Char → Bool
  | '\n' :: _ => true
  | '\r' :: '\n' :: _ => true
  | _ => false

/-- A backslash with nothing but blanks between it and the line end. -/
def foldsLine (s : List Char) : Bool := startsLine (s.dropWhile isSpace)

/-- The rest of a long basic string. Up to two quotes may stand before the closing three. After a
backslash at the end of a line, `skipping` drops blanks and line ends. -/
def readLongBasic : (skipping : Bool) → Step (List Char)
  | _, [] => none
  | _, '"' :: '"' :: '"' :: '"' :: '"' :: s => some (['"', '"'], s)
  | _, '"' :: '"' :: '"' :: '"' :: s => some (['"'], s)
  | _, '"' :: '"' :: '"' :: s => some ([], s)
  | skipping, '\r' :: '\n' :: s =>
    if skipping then readLongBasic true s
    else (readLongBasic false s).map fun p => ('\n' :: p.1, p.2)
  | _, '\\' :: 'u' :: a :: b :: c :: d :: s => do
    let e ← numbered? [a, b, c, d]
    let (cs, s) ← readLongBasic false s
    return (e :: cs, s)
  | _, '\\' :: 'U' :: a :: b :: c :: d :: e :: f :: g :: h :: s => do
    let e ← numbered? [a, b, c, d, e, f, g, h]
    let (cs, s) ← readLongBasic false s
    return (e :: cs, s)
  | _, '\\' :: c :: s =>
    if foldsLine (c :: s) then readLongBasic true (c :: s)
    else do
      let e ← escaped? c
      let (cs, s) ← readLongBasic false s
      return (e :: cs, s)
  | skipping, c :: s =>
    if skipping && (isSpace c || c = '\n') then readLongBasic true s
    else if (isPlain c || c = '\n') && c ≠ '\\' then
      (readLongBasic false s).map fun p => (c :: p.1, p.2)
    else none

def readLongLiteral : Step (List Char)
  | [] => none
  | '\'' :: '\'' :: '\'' :: '\'' :: '\'' :: s => some (['\'', '\''], s)
  | '\'' :: '\'' :: '\'' :: '\'' :: s => some (['\''], s)
  | '\'' :: '\'' :: '\'' :: s => some ([], s)
  | '\r' :: '\n' :: s => (readLongLiteral s).map fun p => ('\n' :: p.1, p.2)
  | c :: s =>
    if isPlain c || c = '\n' then (readLongLiteral s).map fun p => (c :: p.1, p.2) else none

/-- A line end right after the opening quotes of a long string is not part of it. -/
def dropLineEnd : List Char → List Char
  | '\n' :: s => s
  | '\r' :: '\n' :: s => s
  | s => s

/-- A string on one line, as keys have them. -/
def readShort : Step String
  | '"' :: s => (readBasic s).map fun p => (String.ofList p.1, p.2)
  | '\'' :: s => (readLiteral s).map fun p => (String.ofList p.1, p.2)
  | _ => none

def readString : Step String
  | '"' :: '"' :: '"' :: s =>
    (readLongBasic false (dropLineEnd s)).map fun p => (String.ofList p.1, p.2)
  | '\'' :: '\'' :: '\'' :: s =>
    (readLongLiteral (dropLineEnd s)).map fun p => (String.ofList p.1, p.2)
  | s => readShort s

end ModRemap.Toml
