import ModRemap.Dict
import ModRemap.Json.Basic

/-! Domain values in JSON documents. A record may be written as an object or as the array of its
fields in order. -/

namespace ModRemap.RawJson

def string? : RawJson → Option String
  | .string s => s
  | _ => none

def list? {α : Type} (item : RawJson → Option α) : RawJson → Option (List α)
  | .array items => items.mapM item
  | _ => none

def keyed? {α : Type} (value : RawJson → Option α) (p : Option String × RawJson) :
    Option (String × α) := do
  return (← p.1, ← value p.2)

def dict? {α : Type} (value : RawJson → Option α) : RawJson → Option (Dict String α)
  | .object members => (members.mapM (keyed? value)).map Dict.ofList
  | _ => none

def optional? {α : Type} (value : RawJson → Option α) : RawJson → Option (Option α)
  | .null => some none
  | t => (value t).map some

/-- The fields of a record. Other members of an object are passed over; a field that comes twice and
an array with too many items are refused. -/
def record? (names : List String) : RawJson → Option (List (String × RawJson))
  | .array items => if items.length ≤ names.length then some (names.zip items) else none
  | .object members => do
    let known ← members.mapM (keyed? some)
    let known := known.filter fun p => names.contains p.1
    if (known.map Prod.fst).Nodup then some known else none
  | _ => none

def required? {α : Type} (value : RawJson → Option α) (fields : List (String × RawJson))
    (name : String) : Option α :=
  (fields.lookup name).bind value

/-- A field that may be missing, but not malformed. -/
def withDefault? {α : Type} (value : RawJson → Option α) (default : α)
    (fields : List (String × RawJson)) (name : String) : Option α :=
  match fields.lookup name with
  | none => some default
  | some t => value t

end ModRemap.RawJson
