import ModRemap.ClassFile.Constant
import ModRemap.ClassFile.ModifiedUtf8
import ModRemap.Dict

/-! The constant pool of a class. It only grows: a constant keeps its slot. -/

namespace ModRemap

structure ConstantPool where
  slots : Array Constant
  /-- Where the bytes of a text stand that was read or interned. -/
  texts : Dict Bytes UInt16
deriving DecidableEq

namespace ConstantPool

def empty : ConstantPool := ⟨#[.unusable], ∅⟩

instance : Inhabited ConstantPool := ⟨empty⟩

/-- The number of slots, slot 0 included. -/
def size (p : ConstantPool) : Nat := p.slots.size

def isEmpty (p : ConstantPool) : Bool := p.size ≤ 1

/-- The index of the next slot. -/
def next (p : ConstantPool) : UInt16 := UInt16.ofNat p.size

/-- Adds a constant, and the slot after it when it is wide. -/
def append (p : ConstantPool) (c : Constant) : ConstantPool :=
  let slots := p.slots.push c
  { p with slots := if c.isWide then slots.push .unusable else slots }

/-- Adds a constant that was read. Of equal texts the first is the one found later. -/
def appendRead (p : ConstantPool) (c : Constant) : ConstantPool :=
  match c with
  | .utf8 bytes => { p.append c with texts := p.texts.insertNew bytes p.next }
  | c => p.append c

/-- Reads constants until the given number of slots is filled. A wide constant may fill one more. -/
def readSlots (p : ConstantPool) : Nat → Reader ConstantPool
  | 0 => pure p
  | 1 => do return p.appendRead (← Constant.read)
  | n + 2 => do
    let c ← Constant.read
    if c.isWide then readSlots (p.appendRead c) n else readSlots (p.appendRead c) (n + 1)

def read : Reader ConstantPool := do
  let count ← Reader.u2
  empty.readSlots (count.toNat - 1)

def write (p : ConstantPool) : Bytes :=
  Bytes.ofU2 (UInt16.ofNat p.size) ++ p.slots.toList.tail.flatMap Constant.write

def at? (p : ConstantPool) (index : UInt16) : Except ClassError Constant :=
  match p.slots[index.toNat]? with
  | some c => .ok c
  | none => .error (.invalidIndex index)

def text (p : ConstantPool) (index : UInt16) : Except ClassError String := do
  match ← p.at? index with
  | .utf8 bytes =>
    match ModifiedUtf8.decode? bytes with
    | some s => .ok s
    | none => .error (.malformedText index)
  | _ => .error (.invalidIndex index)

def className (p : ConstantPool) (index : UInt16) : Except ClassError String := do
  match ← p.at? index with
  | .classRef name => p.text name
  | _ => .error (.invalidIndex index)

def nameAndType (p : ConstantPool) (index : UInt16) : Except ClassError (String × String) := do
  match ← p.at? index with
  | .nameAndType name descriptor => do
    let name ← p.text name
    let descriptor ← p.text descriptor
    return (name, descriptor)
  | _ => .error (.invalidIndex index)

def maxSize : Nat := 65535

/-- Changes to a pool. What has been added before a failure stays. -/
abbrev Edit := ExceptT ClassError (StateM ConstantPool)

/-- Adds a constant unless the pool would grow too large, and tells its index. -/
def push (c : Constant) : Edit UInt16 :=
  ExceptT.mk fun p =>
    if maxSize < p.size + c.slots then (.error .poolOverflow, p) else (.ok p.next, p.append c)

/-- The index of a text, which is added when it has not been read or interned before. -/
def internText (s : String) : Edit UInt16 := do
  let bytes := ModifiedUtf8.encode s
  let p : ConstantPool ← get
  match p.texts.get? bytes with
  | some index => return index
  | none => do
    let index ← push (.utf8 bytes)
    modify fun p => { p with texts := p.texts.insert bytes index }
    return index

/-- The first slot that holds the constant, which is added when there is none. -/
def intern (c : Constant) : Edit UInt16 := do
  let p : ConstantPool ← get
  match p.slots.findIdx? (· = c) with
  | some i => return UInt16.ofNat i
  | none => push c

def internClass (name : String) : Edit UInt16 := do
  let name ← internText name
  intern (.classRef name)

def internNameAndType (name descriptor : String) : Edit UInt16 := do
  let name ← internText name
  let descriptor ← internText descriptor
  intern (.nameAndType name descriptor)

/-- Replaces the constant in a slot that exists. -/
def replace (index : UInt16) (c : Constant) : Edit Unit :=
  ExceptT.mk fun p =>
    if index.toNat < p.size then (.ok (), { p with slots := p.slots.setIfInBounds index.toNat c })
    else (.error (.invalidIndex index), p)

end ConstantPool

end ModRemap
