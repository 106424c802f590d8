import ModRemap.Json.Basic

/-! Writing JSON documents: on one line without blanks, or one item per line with two blanks for
each level. -/

namespace ModRemap.Json

def hexDigit (n : Nat) : Char := (Nat.digitChar n)

/-- A character inside quotes. Quote, backslash and control characters are escaped. -/
def escape (c : Char) : List Char :=
  if c = '"' then ['\\', '"']
  else if c = '\\' then ['\\', '\\']
  else if c = '\x08' then ['\\', 'b']
  else if c = '\x0C' then ['\\', 'f']
  else if c = '\n' then ['\\', 'n']
  else if c = '\r' then ['\\', 'r']
  else if c = '\t' then ['\\', 't']
  else if c.toNat < 0x20 then
    ['\\', 'u', '0', '0', hexDigit (c.toNat / 16), hexDigit (c.toNat % 16)]
  else [c]

def quote (s : String) : List Char := '"' :: s.toList.flatMap escape ++ ['"']

def literal (n : NumberLiteral) : List Char :=
  (if n.negative then ['-'] else []) ++ n.whole ++
    (if n.fraction = [] then [] else '.' :: n.fraction) ++
    match n.exponent with
    | none => []
    | some (negative, ds) => (if negative then ['e', '-'] else ['e']) ++ ds

mutual

def compactChars : Json → List Char
  | .null => "null".toList
  | .bool b => (if b then "true" else "false").toList
  | .number n => literal n
  | .string s => quote s
  | .array [] => "[]".toList
  | .array (t :: ts) => '[' :: compactChars t ++ compactItems ts
  | .object [] => ['\x7b', '\x7d']
  | .object ((k, t) :: ts) => '\x7b' :: quote k ++ ':' :: compactChars t ++ compactMembers ts

def compactItems : List Json → List Char
  | [] => [']']
  | t :: ts => ',' :: compactChars t ++ compactItems ts

def compactMembers : List (String × Json) → List Char
  | [] => ['\x7d']
  | (k, t) :: ts => ',' :: quote k ++ ':' :: compactChars t ++ compactMembers ts

end

def compact (t : Json) : String := String.ofList (compactChars t)

/-- A line end and the blanks of a level. -/
def newline (level : Nat) : List Char := '\n' :: List.replicate (2 * level) ' '

mutual

def prettyChars (level : Nat) : Json → List Char
  | .array [] => "[]".toList
  | .array (t :: ts) =>
    '[' :: newline (level + 1) ++ prettyChars (level + 1) t ++ prettyItems level ts
  | .object [] => ['\x7b', '\x7d']
  | .object ((k, t) :: ts) =>
    '\x7b' :: newline (level + 1) ++ quote k ++ ':' :: ' ' :: prettyChars (level + 1) t ++
      prettyMembers level ts
  | .null => "null".toList
  | .bool b => (if b then "true" else "false").toList
  | .number n => literal n
  | .string s => quote s

def prettyItems (level : Nat) : List Json → List Char
  | [] => newline level ++ [']']
  | t :: ts => ',' :: newline (level + 1) ++ prettyChars (level + 1) t ++ prettyItems level ts

def prettyMembers (level : Nat) : List (String × Json) → List Char
  | [] => newline level ++ ['\x7d']
  | (k, t) :: ts =>
    ',' :: newline (level + 1) ++ quote k ++ ':' :: ' ' :: prettyChars (level + 1) t ++
      prettyMembers level ts

end

def pretty (t : Json) : String := String.ofList (prettyChars 0 t)

end ModRemap.Json
