import ModRemap.Mapping.Index
import ModRemap.Remap.Hierarchy

/-! The target names of members, looked for in a class and all that it inherits from. -/

namespace ModRemap

structure Resolver where
  index : MappingIndex
  hierarchy : Hierarchy

namespace Resolver

variable (r : Resolver)

def member (kind : MemberKind) (owner name descriptor : String) : Option String :=
  r.hierarchy.search owner fun c => r.index.mapMember kind c name descriptor

def isArray (name : String) : Bool := starts "[" name

/-- A class constant holds a class name, or the descriptor of an array. -/
def classConstant (name : String) : String :=
  if isArray name then r.index.mapDescriptor name else (r.index.mapClass name).getD name

/-- The class that the descriptor of a call site returns. -/
def returnedClass? (descriptor : String) : Option String := do
  let (_, result) ← Text.cutLast? ')' descriptor.toList
  let result ← Text.dropStart? ['L'] result
  let name ← Text.dropEnd? [';'] result
  return String.ofList name

/-- The entry of a bootstrap table at a distance: absent, without arguments, or its first
argument. -/
def bootstrapEntry : Nat → Nat → Reader (Option (Option UInt16))
  | 0, _ => pure none
  | n + 1, distance => do
    let _ ← Reader.u2
    let arguments ← Reader.u2
    match distance with
    | 0 => if arguments = 0 then return some none else return some (some (← Reader.u2))
    | d + 1 => do
      let _ ← Reader.take (arguments.toNat * 2)
      bootstrapEntry n d

def readBootstrap (index : UInt16) : Reader (Option (Option UInt16)) := do
  let count ← Reader.u2
  bootstrapEntry count.toNat index.toNat

/-- The first argument of a bootstrap method when it is a method type. -/
def bootstrapType (pool : ConstantPool) (index : UInt16) :
    List Attribute → Except ClassError (Option String)
  | [] => .ok none
  | a :: attributes => do
    if (← pool.text a.name) ≠ "BootstrapMethods" then bootstrapType pool index attributes
    else
      let (entry, _) ← readBootstrap index a.info
      match entry with
      | none => bootstrapType pool index attributes
      | some none => return none
      | some (some argument) =>
        match ← pool.at? argument with
        | .methodType descriptor => return some (← pool.text descriptor)
        | _ => return none

/-- The name of the interface method that a call site implements. The interface is what the call
site returns. Without a method type that is found, the name alone has to be enough. -/
def callSite (c : ClassFile) (bootstrap : UInt16) (name descriptor : String) :
    Except ClassError (Option String) :=
  match returnedClass? descriptor with
  | none => .ok none
  | some interface => do
    let byName := r.hierarchy.search interface fun owner => r.index.mapMethodByName owner name
    match ← bootstrapType c.pool bootstrap c.attributes with
    | none => return byName
    | some type => return (r.member .method interface name type).or byName

end Resolver

end ModRemap
