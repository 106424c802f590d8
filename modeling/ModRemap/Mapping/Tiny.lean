import ModRemap.Dict
import ModRemap.Mapping.Table
import ModRemap.Text.Split
import ModRemap.Text.Utf8

/-! Tiny mapping files. Version 1 has one row per class or member, in any order; version 2 nests
the members of a class below it by indentation. -/

namespace ModRemap.Tiny

open Text

def columns (line : List Char) : List String := (fields '\t' line).map String.ofList

def takeNames (width : Nat) (cols : List String) : Except RowFault (List String) :=
  if cols.length < width then .error (.missingNames width cols.length)
  else .ok (cols.take width)

/-- A row of a version 1 file. -/
inductive Row where
  | ofClass (names : List String)
  | ofMember (kind : MemberKind) (owner descriptor : String) (names : List String)
deriving DecidableEq, Repr

def readMember (width : Nat) (kind : MemberKind) : List String → Except RowFault Row
  | owner :: descriptor :: cols => do
    let names ← takeNames width cols
    return .ofMember kind owner descriptor names
  | _ => .error .missingOwner

def readRow (width : Nat) : List String → Except RowFault Row
  | [] => .error (.unknownRow "")
  | kind :: cols =>
    if kind = "CLASS" then do
      let names ← takeNames width cols
      return .ofClass names
    else if kind = "FIELD" then readMember width .field cols
    else if kind = "METHOD" then readMember width .method cols
    else .error (.unknownRow kind)

/-- Classes by first name, in the order in which rows mention them. A class that only member rows
mention is called the same everywhere. -/
def addRow (width : Nat) (classes : Dict String ClassMapping) : Row → Dict String ClassMapping
  | .ofClass names =>
    classes.update (names.headD "") fun c => (c.getD (.make names)).rename names
  | .ofMember kind owner descriptor names =>
    classes.update owner fun c =>
      (c.getD (.make (List.replicate width owner))).add kind (.make descriptor names)

/-- The lines after the header, counted from 1 at the header. -/
def numbered (body : List (List Char)) : List (Nat × List Char) :=
  body.zipIdx.map fun p => (p.2 + 2, p.1)

def atLine {α : Type} (line : Nat) : Except RowFault α → Except MappingError α
  | .ok a => .ok a
  | .error fault => .error (.malformed line fault)

def isRow (line : List Char) : Bool := !(line.isEmpty || line.head? = some '#')

def parseRows (namespaces : List String) (body : List (List Char)) :
    Except MappingError MappingTable := do
  let rows ← ((numbered body).filter fun p => isRow p.2).mapM fun p =>
    atLine p.1 (readRow namespaces.length (columns p.2))
  let classes := rows.foldl (addRow namespaces.length) (∅ : Dict String ClassMapping)
  return ⟨namespaces, classes.values⟩

/-- Reads the backslash codes for line feed, tab, carriage return and NUL; any other character
after a backslash stands for itself. -/
def unescape : List Char → List Char
  | [] => []
  | '\\' :: [] => ['\\']
  | '\\' :: c :: s =>
    (if c = 'n' then '\n' else if c = 't' then '\t' else if c = 'r' then '\r'
      else if c = '0' then '\x00' else c) :: unescape s
  | c :: s => c :: unescape s

/-- What has been read of a version 2 file. -/
structure Sections where
  escaped : Bool := false
  done : List ClassMapping := []
  current : Option ClassMapping := none
deriving DecidableEq, Repr

def Sections.classes (s : Sections) : List ClassMapping := s.done ++ s.current.toList

def Sections.readNames (s : Sections) (width : Nat) (cols : List String) :
    Except RowFault (List String) := do
  let names ← takeNames width cols
  return if s.escaped then names.map fun n => String.ofList (unescape n.toList) else names

def memberKind? (column : String) : Option MemberKind :=
  if column = "f" then some .field else if column = "m" then some .method else none

def Sections.readMember (s : Sections) (width : Nat) (kind : MemberKind) (cols : List String) :
    Except RowFault Sections :=
  match s.current with
  | none => .error .memberOutsideClass
  | some c =>
    match cols with
    | [] => .error .missingDescriptor
    | descriptor :: cols => do
      let names ← s.readNames width cols
      return { s with current := some (c.add kind (.make descriptor names)) }

/-- Comments, parameters and local variables are passed over, and so is every property but
`escaped-names`. -/
def Sections.readLine (width : Nat) (s : Sections) (line : List Char) :
    Except RowFault Sections :=
  let depth := (line.takeWhile (· = '\t')).length
  match columns (line.drop depth) with
  | [] => .ok s
  | head :: cols =>
    if depth = 0 && head = "c" then do
      let names ← s.readNames width cols
      return { s with done := s.classes, current := some (.make names) }
    else if depth = 1 then
      match memberKind? head with
      | some kind => s.readMember width kind cols
      | none =>
        if s.current.isNone then .ok { s with escaped := s.escaped || head = "escaped-names" }
        else if head = "c" then .ok s
        else .error (.unexpectedSection head depth)
    else if depth = 2 || depth = 3 then .ok s
    else .error (.unexpectedSection head depth)

def parseSections (namespaces : List String) (body : List (List Char)) :
    Except MappingError MappingTable := do
  let s ← ((numbered body).filter fun p => !(p.2.all isBlank)).foldlM
    (fun s p => atLine p.1 (Sections.readLine namespaces.length s p.2)) ({} : Sections)
  return ⟨namespaces, s.classes⟩

/-- Reads a table; its first line tells the version and names at least two namespaces. -/
def parse (content : String) : Except MappingError MappingTable :=
  let all := lines content.toList
  let header := all.headD []
  match columns header with
  | "v1" :: ns₁ :: ns₂ :: ns => parseRows (ns₁ :: ns₂ :: ns) all.tail
  | "tiny" :: "2" :: _ :: ns₁ :: ns₂ :: ns => parseSections (ns₁ :: ns₂ :: ns) all.tail
  | _ => .error (.unsupportedFormat (String.ofList header))

def parseBytes (content : Bytes) : Except MappingError MappingTable :=
  match textOf? content with
  | some text => parse text
  | none => .error .unreadable

end ModRemap.Tiny
