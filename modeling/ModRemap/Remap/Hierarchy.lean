import ModRemap.ClassFile.Basic
import ModRemap.Dict

/-! The known class hierarchy, and the search through a class and its supertypes. -/

namespace ModRemap

/-- The headers of the known classes by name. Nothing rules out cycles or missing supertypes. -/
abbrev Hierarchy := Dict String ClassHeader

namespace Hierarchy

def parents (h : Hierarchy) (name : String) : List String :=
  match h.get? name with
  | none => []
  | some header => header.parents

/-- The number of edges to supertypes. -/
def edges (h : Hierarchy) : Nat := (h.values.map fun header => header.parents.length).foldr (· + ·) 0

/-- Searches the queue breadth first. A class is taken out of the hierarchy when its parents join
the queue, so that it adds them once. -/
def searchWithin {α : Type} (find : String → Option α) :
    Nat → Hierarchy → List String → Option α
  | 0, _, _ => none
  | _, _, [] => none
  | n + 1, h, name :: queue =>
    match find name with
    | some a => some a
    | none => searchWithin find n (Dict.erase h name) (queue ++ h.parents name)

/-- What `find` says of the nearest class that it says anything of: the class itself, else its
superclass, its interfaces, and so on. -/
def search {α : Type} (h : Hierarchy) (owner : String) (find : String → Option α) : Option α :=
  searchWithin find (h.edges + 1) h [owner]

end Hierarchy

end ModRemap
