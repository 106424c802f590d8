/-! TOML documents as trees. Numbers, truth values and dates are kept as they are written. -/

namespace ModRemap

inductive Toml where
  | string (s : String)
  | scalar (text : String)
  | array (items : List Toml)
  | table (members : List (String × Toml))
deriving Inhabited

namespace Toml

def string? : Toml → Option String
  | .string s => some s
  | _ => none

def strings? : Toml → Option (List String)
  | .array items => items.mapM string?
  | _ => none

/-- The fields of a record: a table without any other key, or an array of the fields in order, of
which the first ones are taken. -/
def record? (names : List String) : Toml → Option (List (String × Toml))
  | .table members => if members.all fun p => names.contains p.1 then some members else none
  | .array items => some (names.zip items)
  | _ => none

/-- A field that may be missing, but not malformed. -/
def withDefault? {α : Type} (value : Toml → Option α) (default : α)
    (fields : List (String × Toml)) (name : String) : Option α :=
  match fields.lookup name with
  | none => some default
  | some t => value t

end Toml

end ModRemap
