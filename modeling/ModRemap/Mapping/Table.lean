/-! Mapping tables: the name of every class and member in each of several namespaces. -/

namespace ModRemap

/-- Names in the order of the namespaces. An empty name after the first stands for the first. -/
def completeNames : List String → List String
  | [] => []
  | first :: others => first :: others.map fun n => if n = "" then first else n

/-- The name in a namespace; where there is none, the first one. -/
def nameAt (names : List String) (ns : Nat) : String := (names[ns]?.or names.head?).getD ""

structure MemberMapping where
  /-- Expressed in the first namespace. -/
  descriptor : String
  names : List String
deriving DecidableEq, Repr

namespace MemberMapping

def make (descriptor : String) (names : List String) : MemberMapping :=
  ⟨descriptor, completeNames names⟩

def name (m : MemberMapping) (ns : Nat) : String := nameAt m.names ns

end MemberMapping

/-- The two kinds of members. -/
inductive MemberKind where
  | field
  | method
deriving DecidableEq, Repr

structure ClassMapping where
  names : List String
  fields : List MemberMapping
  methods : List MemberMapping
deriving DecidableEq, Repr

namespace ClassMapping

def make (names : List String) : ClassMapping := ⟨completeNames names, [], []⟩

def name (c : ClassMapping) (ns : Nat) : String := nameAt c.names ns

def members (c : ClassMapping) : MemberKind → List MemberMapping
  | .field => c.fields
  | .method => c.methods

def rename (c : ClassMapping) (names : List String) : ClassMapping :=
  { c with names := completeNames names }

def add (c : ClassMapping) (kind : MemberKind) (m : MemberMapping) : ClassMapping :=
  match kind with
  | .field => { c with fields := c.fields ++ [m] }
  | .method => { c with methods := c.methods ++ [m] }

end ClassMapping

structure MappingTable where
  namespaces : List String
  classes : List ClassMapping
deriving DecidableEq, Repr

/-- What is wrong with one row of a mapping file. -/
inductive RowFault where
  | missingNames (expected found : Nat)
  | missingOwner
  | unknownRow (kind : String)
  | memberOutsideClass
  | missingDescriptor
  | unexpectedSection (name : String) (depth : Nat)
deriving DecidableEq, Repr

def RowFault.message : RowFault → String
  | .missingNames expected found => s!"expected {expected} names, found {found}"
  | .missingOwner => "member row is missing owner or descriptor"
  | .unknownRow kind => s!"unknown row kind '{kind}'"
  | .memberOutsideClass => "member outside of a class section"
  | .missingDescriptor => "member is missing its descriptor"
  | .unexpectedSection name depth => s!"unexpected section '{name}' at depth {depth}"

inductive MappingError where
  | unknownNamespace (namespaceName : String) (available : List String)
  | malformed (line : Nat) (fault : RowFault)
  | unsupportedFormat (header : String)
  | unreadable
deriving DecidableEq, Repr

def MappingError.message : MappingError → String
  | .unknownNamespace ns available =>
    s!"mapping table does not declare namespace '{ns}' (available: " ++
      ", ".intercalate available ++ ")"
  | .malformed line fault => s!"malformed mapping table at line {line}: {fault.message}"
  | .unsupportedFormat header => s!"unsupported mapping format header: {header}"
  | .unreadable => "mapping file cannot be read"

/-- The position of a namespace; of equal ones the first. -/
def MappingTable.namespaceId (t : MappingTable) (ns : String) : Except MappingError Nat :=
  match t.namespaces.findIdx? (· = ns) with
  | some i => .ok i
  | none => .error (.unknownNamespace ns t.namespaces)

end ModRemap
