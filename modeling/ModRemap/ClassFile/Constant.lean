import ModRemap.ClassFile.Reader

/-! The constants of a class file. -/

namespace ModRemap

inductive Constant where
  /-- The bytes as they stand in the file. -/
  | utf8 (bytes : Bytes)
  | integer (value : UInt32)
  | float (bits : UInt32)
  | long (value : UInt64)
  | double (bits : UInt64)
  | classRef (name : UInt16)
  | string (text : UInt16)
  /-- A member is given by its owner and, in another slot, its name and descriptor. -/
  | memberRef (tag : UInt8) (owner symbol : UInt16)
  | nameAndType (name descriptor : UInt16)
  | methodHandle (kind : UInt8) (reference : UInt16)
  | methodType (descriptor : UInt16)
  | dynamic (tag : UInt8) (bootstrap symbol : UInt16)
  | moduleRef (name : UInt16)
  | packageRef (name : UInt16)
  /-- Slot 0, and the second slot of a long or double. -/
  | unusable
deriving DecidableEq, Repr

namespace Constant

/-- A field reference, as opposed to the two kinds of method reference. -/
def fieldTag : UInt8 := 9

def invokeDynamicTag : UInt8 := 18

/-- Takes two slots. -/
def isWide : Constant → Bool
  | .long _ => true
  | .double _ => true
  | _ => false

def slots (c : Constant) : Nat := if c.isWide then 2 else 1

def read : Reader Constant := do
  let tag ← Reader.u1
  if tag = 1 then do
    let length ← Reader.u2
    return .utf8 (← Reader.take length.toNat)
  else if tag = 3 then return .integer (← Reader.u4)
  else if tag = 4 then return .float (← Reader.u4)
  else if tag = 5 then return .long (← Reader.u8)
  else if tag = 6 then return .double (← Reader.u8)
  else if tag = 7 then return .classRef (← Reader.u2)
  else if tag = 8 then return .string (← Reader.u2)
  else if tag = 9 || tag = 10 || tag = 11 then do
    let owner ← Reader.u2
    return .memberRef tag owner (← Reader.u2)
  else if tag = 12 then do
    let name ← Reader.u2
    return .nameAndType name (← Reader.u2)
  else if tag = 15 then do
    let kind ← Reader.u1
    return .methodHandle kind (← Reader.u2)
  else if tag = 16 then return .methodType (← Reader.u2)
  else if tag = 17 || tag = 18 then do
    let bootstrap ← Reader.u2
    return .dynamic tag bootstrap (← Reader.u2)
  else if tag = 19 then return .moduleRef (← Reader.u2)
  else if tag = 20 then return .packageRef (← Reader.u2)
  else Reader.fail (.unsupportedConstant tag)

open Bytes in
def write : Constant → Bytes
  | .utf8 bytes => 1 :: ofU2 (UInt16.ofNat bytes.length) ++ bytes
  | .integer value => 3 :: ofU4 value
  | .float bits => 4 :: ofU4 bits
  | .long value => 5 :: ofU8 value
  | .double bits => 6 :: ofU8 bits
  | .classRef name => 7 :: ofU2 name
  | .string text => 8 :: ofU2 text
  | .memberRef tag owner symbol => tag :: ofU2 owner ++ ofU2 symbol
  | .nameAndType name descriptor => 12 :: ofU2 name ++ ofU2 descriptor
  | .methodHandle kind reference => 15 :: kind :: ofU2 reference
  | .methodType descriptor => 16 :: ofU2 descriptor
  | .dynamic tag bootstrap symbol => tag :: ofU2 bootstrap ++ ofU2 symbol
  | .moduleRef name => 19 :: ofU2 name
  | .packageRef name => 20 :: ofU2 name
  | .unusable => []

end Constant

end ModRemap
