import ModRemap.Mapping.Index

/-! References as reference maps write them: an owner, a member, or an owner and a member. -/

namespace ModRemap.MappingIndex

open Text

variable (ix : MappingIndex)

/-- Text before the first `;` that names a member without its owner. -/
def looksLikeMember (s : String) : Bool :=
  s.toList.contains '(' || s.toList.contains ':' || starts "field_" s || starts "method_" s

def bareName (s : String) : String := String.ofList (s.toList.takeWhile fun c => c ≠ '(' && c ≠ ':')

def bareKind (s : String) : MemberKind :=
  if s.toList.contains '(' || (starts "method_" s && !s.toList.contains ':') then .method
  else .field

/-- A class that is written with a leading `L` comes out in the form `L…;`. -/
def mapClassReference (s : String) : String :=
  match ix.mapClass s with
  | some target => target
  | none =>
    match (dropStart? ['L'] s.toList).bind fun name => ix.mapClass (String.ofList name) with
    | some target => "L" ++ target ++ ";"
    | none => s

def mapOwned (owner member : String) : String :=
  let owner := "L" ++ owner ++ ";"
  ix.classTarget owner ++ ix.memberTarget owner member

/-- A member without an owner is looked for in the whole table. What is not found stays. -/
def mapReference (reference : String) : String :=
  let (owner, member) := match cut? ';' reference.toList with
    | none => (reference, none)
    | some (owner, member) => (String.ofList owner, some (String.ofList member))
  if looksLikeMember owner then
    match ix.findByName (bareKind owner) (bareName owner) with
    | some found => ix.mapOwned found.owner found.member
    | none => reference
  else match member with
    | none => ix.mapClassReference owner
    | some member =>
      ix.mapOwned (String.ofList ((dropStart? ['L'] owner.toList).getD owner.toList)) member

end ModRemap.MappingIndex
