import ModRemap.Text.Printable
import ModRemap.Text.Split

/-! One-line outlines of values for people to read. -/

namespace ModRemap.Text

/-- A character inside quotes; one that does not show is written as its number. -/
def quotedChar (c : Char) : String :=
  if c = '"' then "\\\""
  else if c = '\\' then "\\\\"
  else if c = '\n' then "\\n"
  else if c = '\r' then "\\r"
  else if c = '\t' then "\\t"
  else if c = '\x00' then "\\0"
  else if isPrintable c then String.singleton c
  else "\\u\x7b" ++ String.ofList (Nat.toDigits 16 c.toNat) ++ "\x7d"

def quoted (s : String) : String := "\"" ++ join "" (s.toList.map quotedChar) ++ "\""

def listed (items : List String) : String := "[" ++ join ", " items ++ "]"

/-- A named record with its fields in order. -/
def outlined (name : String) (fields : List (String × String)) : String :=
  name ++ " \x7b " ++ join ", " (fields.map fun f => f.1 ++ ": " ++ f.2) ++ " \x7d"

def sorted (names : List String) : List String := names.mergeSort fun a b => !decide (b < a)

end ModRemap.Text
