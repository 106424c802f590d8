import ModRemap.Dict
import ModRemap.Toml.Basic

/-! Documents in the making. Tables are opened by headers and by keys with dots, and may be added to
later, but not in every way. -/

namespace ModRemap.Toml

/-- How a table came to be: by its own header, on the way to another header, or by a dotted key. -/
inductive Origin where
  | header
  | path
  | dotted
deriving DecidableEq, Repr

/-- A value is closed. An array of tables grows, and its last table may be added to. -/
inductive Draft where
  | value (v : Toml)
  | table (origin : Origin) (members : List (String × Draft))
  | tables (items : List (List (String × Draft)))

/-- The tables on the way, and the name below them. -/
structure Key where
  tables : List String
  name : String
deriving DecidableEq, Repr

def Key.path (key : Key) : List String := key.tables ++ [key.name]

namespace Draft

abbrev Members := List (String × Draft)

mutual

def close : Draft → Toml
  | .value v => v
  | .table _ members => .table (closeMembers members)
  | .tables items => .array (closeTables items)

def closeMembers : List (String × Draft) → List (String × Toml)
  | [] => []
  | (key, d) :: rest => (key, d.close) :: closeMembers rest

def closeTables : List (List (String × Draft)) → List Toml
  | [] => []
  | members :: rest => .table (closeMembers members) :: closeTables rest

end

/-- Changes the table at the end of a path. Tables that are missing on the way are made; a dotted
key does not lead into a table that has a header. -/
def within (dotted : Bool) (change : Origin → Members → Option Members) :
    Origin → List String → Members → Option Members
  | origin, [], members => change origin members
  | _, key :: path, members =>
    match members.lookup key with
    | none => do
      let origin := if dotted then Origin.dotted else .path
      let inner ← within dotted change origin path []
      return Dict.put key (.table origin inner) members
    | some (.value _) => none
    | some (.table origin inner) =>
      if dotted && origin = .header then none
      else do
        let inner ← within dotted change origin path inner
        return Dict.put key (.table origin inner) members
    | some (.tables items) => do
      let last ← items.getLast?
      let last ← within dotted change .header path last
      return Dict.put key (.tables (items.dropLast ++ [last])) members

/-- Adds a key that is new in its table. A dotted key adds to tables of dotted keys only. -/
def set (key : Key) (v : Toml) : Members → Option Members :=
  within true (fun origin members =>
    if decide (origin = .dotted) = key.tables.isEmpty then none
    else if (members.lookup key.name).isSome then none
    else some (members ++ [(key.name, .value v)])) .header key.tables

/-- Opens a table by its header, which may come once. -/
def openTable (key : Key) : Members → Option Members :=
  within false (fun _ members =>
    match members.lookup key.name with
    | none => some (members ++ [(key.name, .table .header [])])
    | some (.table .path inner) => some (Dict.put key.name (.table .header inner) members)
    | _ => none) .header key.tables

/-- Opens the next table of an array of tables. -/
def openItem (key : Key) : Members → Option Members :=
  within false (fun _ members =>
    match members.lookup key.name with
    | none => some (members ++ [(key.name, .tables [[]])])
    | some (.tables items) => some (Dict.put key.name (.tables (items ++ [[]])) members)
    | _ => none) .header key.tables

end Draft

/-- What a line of a document says. -/
inductive Statement where
  | set (key : Key) (value : Toml)
  | table (key : Key)
  | item (key : Key)

/-- The tables so far, and the path of the one that is open. -/
structure Page where
  members : Draft.Members := []
  here : List String := []

def Page.add (page : Page) : Statement → Option Page
  | .set key v => do
    let members ← Draft.within false (fun _ => Draft.set key v) .header page.here page.members
    return { page with members }
  | .table key => do return ⟨← Draft.openTable key page.members, key.path⟩
  | .item key => do return ⟨← Draft.openItem key page.members, key.path⟩

def ofStatements? (statements : List Statement) : Option Toml := do
  let page ← statements.foldlM Page.add {}
  return .table (Draft.closeMembers page.members)

/-- The table of the entries between two braces. -/
def ofEntries? (entries : List (Key × Toml)) : Option Toml := do
  let members ← entries.foldlM (fun members p => Draft.set p.1 p.2 members) []
  return .table (Draft.closeMembers members)

end ModRemap.Toml
