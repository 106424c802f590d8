import ModRemap.Text.Digit
import ModRemap.Text.Split

/-! Which words are numbers, truth values, dates or times. -/

namespace ModRemap.Toml.Scalar

open Text

def isDigit : Char → Bool := isDigitIn 10

/-- Digits, with single underscores between some of them. -/
def isGrouped (base : Nat) (s : List Char) : Bool :=
  (fields '_' s).all fun g => !g.isEmpty && g.all (isDigitIn base)

/-- The sign, which holds for a minus, and the rest. -/
def sign : List Char → Bool × List Char
  | '-' :: s => (true, s)
  | '+' :: s => (false, s)
  | s => (false, s)

/-- A leading zero stands alone. -/
def isWhole (s : List Char) : Bool := isGrouped 10 s && (s.head? ≠ some '0' || s.length = 1)

def value (base : Nat) (s : List Char) : Nat := natIn base (s.filter (· ≠ '_'))

def isInteger : List Char → Bool
  | '0' :: 'x' :: s => isGrouped 16 s && value 16 s < 1 <<< 63
  | '0' :: 'o' :: s => isGrouped 8 s && value 8 s < 1 <<< 63
  | '0' :: 'b' :: s => isGrouped 2 s && value 2 s < 1 <<< 63
  | s =>
    let (negative, digits) := sign s
    isWhole digits && value 10 digits < (1 <<< 63) + (if negative then 1 else 0)

/-! ### Floats -/

/-- Whether the value is below all that round to infinity in double precision. -/
def isFinite (digits : Nat) (width : Nat) (exponent : Int) : Bool :=
  let limit := (1 <<< 1024) - (1 <<< 970)
  if digits = 0 then true
  else if 0 ≤ exponent then exponent ≤ 400 && digits * Nat.pow 10 exponent.toNat < limit
  else if (width : Int) + exponent < 300 then true
  else digits < limit * Nat.pow 10 (-exponent).toNat

def exponent? : List Char → Option Int
  | [] => some 0
  | c :: s =>
    let (negative, digits) := sign s
    if (c = 'e' || c = 'E') && isGrouped 10 digits then
      some (if negative then -(value 10 digits : Int) else value 10 digits)
    else none

/-- The digits of a fraction, which may be missing, and the rest. -/
def fraction? : List Char → Option (List Char × List Char)
  | '.' :: s =>
    let digits := s.takeWhile fun c => isDigit c || c = '_'
    if isGrouped 10 digits then some (digits, s.drop digits.length) else none
  | s => some ([], s)

/-- A fraction or an exponent has to be there. A value that is too large is refused, except below
zero. -/
def isFloat (s : List Char) : Bool :=
  let (negative, body) := sign s
  let whole := body.takeWhile fun c => isDigit c || c = '_'
  let rest := body.drop whole.length
  if body = "inf".toList || body = "nan".toList then true
  else if !isWhole whole || rest.isEmpty then false
  else match fraction? rest with
    | none => false
    | some (part, rest) =>
      match exponent? rest with
      | none => false
      | some e =>
        let digits := (whole ++ part).filter (· ≠ '_')
        let places := (part.filter (· ≠ '_')).length
        negative || isFinite (natIn 10 digits) digits.length (e - places)

/-! ### Dates and times -/

/-- A number of a fixed width and the rest. -/
def number? (width low high : Nat) (s : List Char) : Option (Nat × List Char) :=
  let digits := s.take width
  let n := natIn 10 digits
  if digits.length = width && digits.all isDigit && low ≤ n && n ≤ high then
    some (n, s.drop width)
  else none

def isLeap (year : Nat) : Bool := year % 4 = 0 && (year % 100 ≠ 0 || year % 400 = 0)

def daysIn (year month : Nat) : Nat :=
  if month = 2 then if isLeap year then 29 else 28
  else if [4, 6, 9, 11].contains month then 30
  else 31

/-- What follows a date. -/
def afterDate? (s : List Char) : Option (List Char) := do
  let (year, s) ← number? 4 0 9999 s
  let s ← dropStart? ['-'] s
  let (month, s) ← number? 2 1 12 s
  let s ← dropStart? ['-'] s
  let (_, s) ← number? 2 1 (daysIn year month) s
  return s

/-- What follows a time of day, whose seconds may have decimal places. -/
def afterTime? (s : List Char) : Option (List Char) := do
  let (_, s) ← number? 2 0 23 s
  let s ← dropStart? [':'] s
  let (_, s) ← number? 2 0 59 s
  let s ← dropStart? [':'] s
  let (_, s) ← number? 2 0 60 s
  match s with
  | '.' :: t => if (t.takeWhile isDigit).isEmpty then none else return t.dropWhile isDigit
  | _ => return s

def isOffset : List Char → Bool
  | ['Z'] => true
  | ['z'] => true
  | c :: s =>
    (c = '+' || c = '-') &&
      ((number? 2 0 23 s).bind fun p => (dropStart? [':'] p.2).bind (number? 2 0 59)).any
        fun p => p.2.isEmpty
  | [] => false

def isTime (s : List Char) : Bool := (afterTime? s).any List.isEmpty

def isDate (s : List Char) : Bool := (afterDate? s).any List.isEmpty

/-- A date, a letter or a blank, and a time, with an offset or without. -/
def isMoment (s : List Char) : Bool :=
  match afterDate? s with
  | some (c :: s) =>
    (c = 'T' || c = 't' || c = ' ') && (afterTime? s).any fun rest => rest.isEmpty || isOffset rest
  | _ => false

def isTruth (s : List Char) : Bool := s = "true".toList || s = "false".toList

def isScalar (s : List Char) : Bool :=
  isTruth s || isInteger s || isFloat s || isDate s || isTime s || isMoment s

def isWordChar (c : Char) : Bool := c.isAlphanum || "_+-.:".toList.contains c

/-- The longest word, which goes on after a blank when it is a date and a time follows. -/
def word (s : List Char) : List Char × List Char :=
  let head := s.takeWhile isWordChar
  let rest := s.drop head.length
  match rest with
  | ' ' :: t =>
    let next := t.takeWhile isWordChar
    if isDate head && isMoment (head ++ ' ' :: next) then
      (head ++ ' ' :: next, t.drop next.length)
    else (head, rest)
  | _ => (head, rest)

end ModRemap.Toml.Scalar
