import ModRemap.Remap.Draft

/-! Method bodies: the descriptors and signatures of local variables are renamed, and all else is
copied. -/

namespace ModRemap.Resolver

open Drafting

variable (r : Resolver)

/-- A signature that cannot be read stays. -/
def signature (s : String) : String :=
  match r.index.mapSignature s with
  | .ok mapped => mapped
  | .error _ => s

/-- A table of local variables holds descriptors or signatures. -/
inductive LocalTable where
  | descriptors
  | signatures
deriving DecidableEq, Repr

def LocalTable.ofName? (name : String) : Option LocalTable :=
  if name = "LocalVariableTable" then some .descriptors
  else if name = "LocalVariableTypeTable" then some .signatures
  else none

def localType (table : LocalTable) (s : String) : String :=
  match table with
  | .descriptors => r.index.mapDescriptor s
  | .signatures => r.signature s

/-- One variable: six bytes, the index of its type, two bytes. -/
def readLocal : Reader (Bytes × UInt16 × Bytes) := do
  let before ← Reader.take 6
  let type ← Reader.u2
  return (before, type, ← Reader.take 2)

def remapLocals (table : LocalTable) : Nat → Bytes → Drafting (Bytes × Bytes)
  | 0, s => return ([], s)
  | n + 1, s => do
    let ((before, type, after), s) ← reading readLocal s
    let old ← text type
    let type ← retext type old (r.localType table old)
    let (out, s) ← remapLocals table n s
    return (before ++ Bytes.ofU2 type ++ after ++ out, s)

def readAttributeFront : Reader (UInt16 × UInt32) := do
  let name ← Reader.u2
  return (name, ← Reader.u4)

/-- A table is read as far as its entries go, whatever length it declares. -/
def remapBody (name : String) (length : Nat) (s : Bytes) : Drafting (Bytes × Bytes) :=
  match LocalTable.ofName? name with
  | none => reading (Reader.take length) s
  | some table => do
    let ((count, entries), s) ← reading (Reader.raw Reader.u2) s
    let (out, s) ← r.remapLocals table entries.toNat s
    return (count ++ out, s)

def remapAttributes : Nat → Bytes → Drafting (Bytes × Bytes)
  | 0, s => return ([], s)
  | n + 1, s => do
    let ((front, name, length), s) ← reading (Reader.raw readAttributeFront) s
    let name ← text name
    let (body, s) ← r.remapBody name length.toNat s
    let (out, s) ← remapAttributes n s
    return (front ++ body ++ out, s)

/-- Everything before the attributes of a body, and the number of attributes. -/
def readCodeFront : Reader UInt16 := do
  let _ ← Reader.take 4
  let length ← Reader.u4
  let _ ← Reader.take length.toNat
  let handlers ← Reader.u2
  let _ ← Reader.take (handlers.toNat * 8)
  Reader.u2

def remapCode (info : Bytes) : Drafting Bytes := do
  let ((front, count), s) ← reading (Reader.raw readCodeFront) info
  let (out, rest) ← r.remapAttributes count.toNat s
  return front ++ out ++ rest

end ModRemap.Resolver
