import ModRemap.Descriptor
import ModRemap.Dict
import ModRemap.Mapping.Table
import ModRemap.Signature

/-! Look-ups in a mapping table from one namespace, the source, to another, the target. -/

namespace ModRemap

/-- A member as both namespaces call it. -/
structure MemberEntry where
  sourceName : String
  sourceDescriptor : String
  targetName : String
  targetDescriptor : String
deriving DecidableEq, Repr

structure ClassEntry where
  target : String
  fields : List MemberEntry
  methods : List MemberEntry
deriving DecidableEq, Repr

structure MappingIndex where
  source : String
  target : String
  /-- By source name. -/
  classes : Dict String ClassEntry
  /-- From target to source names. -/
  reverse : Dict String String
deriving DecidableEq, Repr

namespace ClassEntry

def members (c : ClassEntry) : MemberKind → List MemberEntry
  | .field => c.fields
  | .method => c.methods

/-- Of several members with one source name and descriptor, the last. -/
def find? (c : ClassEntry) (kind : MemberKind) (name descriptor : String) : Option MemberEntry :=
  (c.members kind).reverse.find? fun m =>
    m.sourceName = name && m.sourceDescriptor = descriptor

end ClassEntry

namespace MappingIndex

/-- The names of all classes in a namespace, by their first names. -/
def classNames (t : MappingTable) (ns : Nat) : Dict String String :=
  Dict.ofList (t.classes.map fun c => (c.name 0, c.name ns))

/-- A descriptor of the table, which uses first names, in another namespace. -/
def descriptorIn (t : MappingTable) (ns : Nat) (descriptor : String) : String :=
  if ns = 0 then descriptor else Descriptor.rename (classNames t ns).get? descriptor

def memberEntry (t : MappingTable) (source target : Nat) (m : MemberMapping) : MemberEntry where
  sourceName := m.name source
  sourceDescriptor := descriptorIn t source m.descriptor
  targetName := m.name target
  targetDescriptor := descriptorIn t target m.descriptor

def classEntry (t : MappingTable) (source target : Nat) (c : ClassMapping) : ClassEntry where
  target := c.name target
  fields := c.fields.map (memberEntry t source target)
  methods := c.methods.map (memberEntry t source target)

/-- Of classes with one name the last counts, at the place of the first. -/
def build (t : MappingTable) (source target : String) : Except MappingError MappingIndex := do
  let s ← t.namespaceId source
  let d ← t.namespaceId target
  return {
    source, target
    classes := Dict.ofList (t.classes.map fun c => (c.name s, classEntry t s d c))
    reverse := Dict.ofList (t.classes.map fun c => (c.name d, c.name s)) }

variable (ix : MappingIndex)

def classCount : Nat := ix.classes.size

def mapClass (name : String) : Option String := (ix.classes.get? name).map ClassEntry.target

def unmapClass (name : String) : Option String := ix.reverse.get? name

def find? (kind : MemberKind) (owner name descriptor : String) : Option MemberEntry :=
  (ix.classes.get? owner).bind fun c => c.find? kind name descriptor

/-- The target name of a member that `owner` itself declares. -/
def mapMember (kind : MemberKind) (owner name descriptor : String) : Option String :=
  (ix.find? kind owner name descriptor).map MemberEntry.targetName

def mapField (owner name descriptor : String) : Option String :=
  ix.mapMember .field owner name descriptor

def mapMethod (owner name descriptor : String) : Option String :=
  ix.mapMember .method owner name descriptor

/-- The target name that all methods of `owner` with this name share, if they do. -/
def mapMethodByName (owner name : String) : Option String :=
  match ix.classes.get? owner with
  | none => none
  | some c =>
    match (c.methods.filter fun m => m.sourceName = name).map MemberEntry.targetName with
    | [] => none
    | first :: others => if others.all (· = first) then some first else none

def mapDescriptor (descriptor : String) : String := Descriptor.rename ix.mapClass descriptor

def mapSignature (signature : String) : Except SignatureError String :=
  Signature.rename ix.mapClass signature

/-- The name in `L…;`; other text is a name as it is. -/
def bareClass (descriptor : String) : String :=
  match Text.dropEnd? [';'] descriptor.toList with
  | none => descriptor
  | some inner => String.ofList ((Text.dropStart? ['L'] inner).getD inner)

def classTarget (descriptor : String) : String :=
  match ix.mapClass (bareClass descriptor) with
  | some target => "L" ++ target ++ ";"
  | none => descriptor

/-- A member reference: `name(…)…` for a method, `name:descriptor` or a bare name for a field. -/
inductive MemberRef where
  | method (name descriptor : String)
  | field (name descriptor : String)
  | bareField (name : String)
deriving DecidableEq, Repr

def MemberRef.ofText (member : String) : MemberRef :=
  let s := member.toList
  if s.contains '(' then
    .method (String.ofList (s.takeWhile (· ≠ '('))) (String.ofList (s.dropWhile (· ≠ '(')))
  else match Text.cut? ':' s with
    | some (name, descriptor) => .field (String.ofList name) (String.ofList descriptor)
    | none => .bareField member

/-- The target form of a member of `owner`; what the table does not list stays. -/
def memberTarget (owner member : String) : String :=
  match ix.classes.get? (bareClass owner) with
  | none => member
  | some c =>
    match MemberRef.ofText member with
    | .method name descriptor =>
      match c.find? .method name descriptor with
      | some m => m.targetName ++ m.targetDescriptor
      | none => member
    | .field name descriptor =>
      match c.find? .field name descriptor with
      | some m => m.targetName ++ ":" ++ m.targetDescriptor
      | none => member
    | .bareField name =>
      match c.fields.find? fun m => m.sourceName = name with
      | some m => m.targetName
      | none => member

/-- A member and the class that declares it, both in the source namespace. -/
structure OwnedMember where
  owner : String
  member : String
deriving DecidableEq, Repr

def written (kind : MemberKind) (m : MemberEntry) : String :=
  match kind with
  | .field => m.sourceName ++ ":" ++ m.sourceDescriptor
  | .method => m.sourceName ++ m.sourceDescriptor

/-- For every class that declares a member of this name, the first such member. -/
def declaring (kind : MemberKind) (name : String) : List OwnedMember :=
  ix.classes.entries.filterMap fun p =>
    ((p.2.members kind).find? fun m => m.sourceName = name).map fun m =>
      ⟨p.1, written kind m⟩

/-- The member of this name in the first class that declares one. -/
def findByName (kind : MemberKind) (name : String) : Option OwnedMember :=
  (ix.declaring kind name).head?

/-- How many classes declare the name, where it is more than one. -/
def ambiguity (kind : MemberKind) (name : String) : Option Nat :=
  let n := (ix.declaring kind name).length
  if 1 < n then some n else none

end MappingIndex

end ModRemap
