import ModRemap.ClassFile.Basic

/-! Building classes member by member. -/

namespace ModRemap.ClassFile

/-- Changes to a class. What has been added to its pool before a failure stays. -/
abbrev Edit := ExceptT ClassError (StateM ClassFile)

def onPool {α : Type} (change : ConstantPool.Edit α) : Edit α :=
  ExceptT.mk fun c =>
    let (result, pool) := change.run c.pool
    (result, { c with pool })

def blank : ClassFile :=
  { minor := 0, major := 52, pool := .empty, access := 0x0021, thisClass := 0, superclass := 0,
    interfaces := [], fields := [], methods := [], attributes := [] }

def init (name : String) (superclass : Option String) : Edit Unit := do
  let thisClass ← onPool (ConstantPool.internClass name)
  modify fun c => { c with thisClass }
  if let some s := superclass then
    let superclass ← onPool (ConstantPool.internClass s)
    modify fun c => { c with superclass }

/-- A public class without members, in format version 52. -/
def make (name : String) (superclass : Option String) : Except ClassError ClassFile :=
  let (result, c) := (init name superclass).run blank
  result.map fun () => c

def addInterface (name : String) : Edit Unit := do
  let index ← onPool (ConstantPool.internClass name)
  modify fun c => { c with interfaces := c.interfaces ++ [index] }

def newMember (access : UInt16) (name descriptor : String) : Edit Member := do
  let name ← onPool (ConstantPool.internText name)
  let descriptor ← onPool (ConstantPool.internText descriptor)
  return ⟨access, name, descriptor, []⟩

def addField (access : UInt16) (name descriptor : String) : Edit Unit := do
  let m ← newMember access name descriptor
  modify fun c => { c with fields := c.fields ++ [m] }

def addMethod (access : UInt16) (name descriptor : String) : Edit Unit := do
  let m ← newMember access name descriptor
  modify fun c => { c with methods := c.methods ++ [m] }

/-- A `Signature` attribute whose texts are interned; it is not yet attached to anything. -/
def signatureAttribute (signature : String) : Edit Attribute := do
  let name ← onPool (ConstantPool.internText "Signature")
  let index ← onPool (ConstantPool.internText signature)
  return ⟨name, Bytes.ofU2 index⟩

end ModRemap.ClassFile
