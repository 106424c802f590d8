import ModRemap.ClassFile.Pool

/-! Class files: reading all of one or only its header, and writing. -/

namespace ModRemap

structure Attribute where
  name : UInt16
  info : Bytes
deriving DecidableEq, Repr

/-- A field or method, with the pool slots of its name and descriptor. -/
structure Member where
  access : UInt16
  name : UInt16
  descriptor : UInt16
  attributes : List Attribute
deriving DecidableEq, Repr

structure ClassFile where
  minor : UInt16
  major : UInt16
  pool : ConstantPool
  access : UInt16
  thisClass : UInt16
  /-- 0 where there is no superclass. -/
  superclass : UInt16
  interfaces : List UInt16
  fields : List Member
  methods : List Member
  attributes : List Attribute
deriving DecidableEq

/-- The names that place a class in the hierarchy. -/
structure ClassHeader where
  name : String
  superclass : Option String
  interfaces : List String
deriving DecidableEq, Repr

/-- The superclass, then the interfaces. -/
def ClassHeader.parents (h : ClassHeader) : List String := h.superclass.toList ++ h.interfaces

def Attribute.read : Reader Attribute := do
  let name ← Reader.u2
  let length ← Reader.u4
  return ⟨name, ← Reader.take length.toNat⟩

def Attribute.write (a : Attribute) : Bytes :=
  Bytes.ofU2 a.name ++ Bytes.ofU4 (UInt32.ofNat a.info.length) ++ a.info

def Member.read : Reader Member := do
  let access ← Reader.u2
  let name ← Reader.u2
  let descriptor ← Reader.u2
  return ⟨access, name, descriptor, ← Reader.counted Attribute.read⟩

def Member.write (m : Member) : Bytes :=
  Bytes.ofU2 m.access ++ Bytes.ofU2 m.name ++ Bytes.ofU2 m.descriptor ++
    Bytes.ofCounted Attribute.write m.attributes

namespace ClassFile

def magic : UInt32 := 0xCAFEBABE

/-- The part up to the interfaces; the tables are empty. -/
def readFront : Reader ClassFile := do
  let m ← Reader.u4
  if m ≠ magic then Reader.fail .invalidMagic
  let minor ← Reader.u2
  let major ← Reader.u2
  let pool ← ConstantPool.read
  let access ← Reader.u2
  let thisClass ← Reader.u2
  let superclass ← Reader.u2
  let interfaces ← Reader.counted Reader.u2
  return { minor, major, pool, access, thisClass, superclass, interfaces,
           fields := [], methods := [], attributes := [] }

def readTables (c : ClassFile) : Reader ClassFile := do
  let fields ← Reader.counted Member.read
  let methods ← Reader.counted Member.read
  let attributes ← Reader.counted Attribute.read
  return { c with fields, methods, attributes }

def parse (bytes : Bytes) : Except ClassError ClassFile := do
  let (c, rest) ← (readFront >>= readTables) bytes
  if rest.isEmpty then .ok c else .error (.trailingData rest.length)

def write (c : ClassFile) : Bytes :=
  Bytes.ofU4 magic ++ Bytes.ofU2 c.minor ++ Bytes.ofU2 c.major ++ c.pool.write ++
    Bytes.ofU2 c.access ++ Bytes.ofU2 c.thisClass ++ Bytes.ofU2 c.superclass ++
    Bytes.ofCounted Bytes.ofU2 c.interfaces ++
    Bytes.ofCounted Member.write c.fields ++ Bytes.ofCounted Member.write c.methods ++
    Bytes.ofCounted Attribute.write c.attributes

def name (c : ClassFile) : Except ClassError String := c.pool.className c.thisClass

/-- The superclass is looked up first, then the class, then the interfaces. -/
def header (c : ClassFile) : Except ClassError ClassHeader := do
  let superclass ←
    if c.superclass = 0 then pure none else some <$> c.pool.className c.superclass
  let name ← c.name
  let interfaces ← c.interfaces.mapM c.pool.className
  return ⟨name, superclass, interfaces⟩

/-- Whatever follows the interfaces is never looked at. -/
def parseHeader (bytes : Bytes) : Except ClassError ClassHeader := do
  let (c, _) ← readFront bytes
  c.header

end ClassFile

end ModRemap
