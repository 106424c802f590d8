import ModRemap.Remap.Code

/-! Renaming all that one class file mentions. Names are appended to the pool, and the constants
that use them are pointed at the new ones. -/

namespace ModRemap.Resolver

open Drafting

variable (r : Resolver)

/-- The name of a referenced member; arrays have no members of their own. -/
def reference (tag : UInt8) (owner name descriptor : String) : String :=
  if isArray owner then name
  else (r.member (if tag = Constant.fieldTag then .field else .method) owner name descriptor).getD
    name

/-- The slot of a name and descriptor where they differ from the old ones. -/
def resymbol (symbol : UInt16) (old new : String × String) : Drafting UInt16 :=
  if new = old then return symbol
  else do
    let symbol ← onPool (ConstantPool.internNameAndType new.1 new.2)
    mark
    return symbol

/-- What a constant of class `c` becomes; it is read in the pool that `c` came with. -/
def remapConstant (c : ClassFile) : Constant → Drafting Constant
  | .classRef name => do
    let old ← c.pool.text name
    return .classRef (← retext name old (r.classConstant old))
  | .memberRef tag owner symbol => do
    let ownerName ← c.pool.className owner
    let (name, descriptor) ← c.pool.nameAndType symbol
    let new := (r.reference tag ownerName name descriptor, r.index.mapDescriptor descriptor)
    return .memberRef tag owner (← resymbol symbol (name, descriptor) new)
  | .dynamic tag bootstrap symbol => do
    let (name, descriptor) ← c.pool.nameAndType symbol
    let found ← if tag = Constant.invokeDynamicTag then
      liftM (r.callSite c bootstrap name descriptor) else pure none
    let new := (found.getD name, r.index.mapDescriptor descriptor)
    return .dynamic tag bootstrap (← resymbol symbol (name, descriptor) new)
  | .methodType descriptor => do
    let old ← c.pool.text descriptor
    return .methodType (← retext descriptor old (r.index.mapDescriptor old))
  | k => return k

/-- Remaps the slots from `slot` on, which held the given constants. -/
def remapSlots (c : ClassFile) : Nat → List Constant → Drafting Unit
  | _, [] => return ()
  | slot, k :: ks => do
    let new ← r.remapConstant c k
    if new ≠ k then onPool (ConstantPool.replace (UInt16.ofNat slot) new)
    remapSlots c (slot + 1) ks

def remapAttribute (a : Attribute) : Drafting Attribute := do
  let name ← text a.name
  if name = "Signature" then do
    let (index, _) ← reading Reader.u2 a.info
    let old ← text index
    let new := r.signature old
    if new = old then return a
    else return { a with info := Bytes.ofU2 (← retext index old new) }
  else if name = "Code" then return { a with info := ← r.remapCode a.info }
  else return a

def privateOrStatic : UInt16 := 0x000A

/-- A field is looked for in all supertypes, and so is a method that can override; a private or
static method only in the class, and an initializer nowhere. -/
def declaration (kind : MemberKind) (access : UInt16) (owner name descriptor : String) : String :=
  let found := match kind with
    | .field => r.member .field owner name descriptor
    | .method =>
      if name = "<init>" || name = "<clinit>" then none
      else if access &&& privateOrStatic ≠ 0 then r.index.mapMethod owner name descriptor
      else r.member .method owner name descriptor
  found.getD name

def remapMember (kind : MemberKind) (owner : String) (m : Member) : Drafting Member := do
  let oldName ← text m.name
  let oldDescriptor ← text m.descriptor
  let name ← retext m.name oldName (r.declaration kind m.access owner oldName oldDescriptor)
  let descriptor ← retext m.descriptor oldDescriptor (r.index.mapDescriptor oldDescriptor)
  let attributes ← m.attributes.mapM r.remapAttribute
  return { m with name, descriptor, attributes }

def remapTables (c : ClassFile) (owner : String) : Drafting ClassFile := do
  r.remapSlots c 1 c.pool.slots.toList.tail
  let fields ← c.fields.mapM (r.remapMember .field owner)
  let methods ← c.methods.mapM (r.remapMember .method owner)
  let attributes ← c.attributes.mapM r.remapAttribute
  return { c with fields, methods, attributes }

/-- A class under its old and its new name. -/
structure Renamed where
  old : String
  new : String
  bytes : Bytes
deriving DecidableEq, Repr

/-- A class in which nothing changes keeps its bytes. -/
def remapClass (bytes : Bytes) : Except ClassError Renamed := do
  let c ← ClassFile.parse bytes
  let old ← c.name
  let (c, draft) ← r.remapTables c old ⟨c.pool, false⟩
  let c := { c with pool := draft.pool }
  let new ← c.name
  return ⟨old, new, if draft.changed then c.write else bytes⟩

end ModRemap.Resolver
