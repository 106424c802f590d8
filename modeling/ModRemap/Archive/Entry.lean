import ModRemap.Text.Split
import ModRemap.Text.Utf8

/-! Entries of an archive, and why one cannot be had. -/

namespace ModRemap

structure Entry where
  name : String
  bytes : Bytes
deriving DecidableEq, Repr

/-- A directory has a name that ends in a slash or a backslash. -/
def isDirectoryName (name : String) : Bool :=
  match name.toList.getLast? with
  | some c => c = '/' || c = '\\'
  | none => false

inductive ArchiveFault where
  /-- Not an archive, or an entry that cannot be opened. -/
  | malformed
  /-- An entry whose data do not fit its checksum. -/
  | unreadable
deriving DecidableEq, Repr

/-- An entry as the directory of an archive lists it. -/
structure Listed where
  name : String
  body : Except ArchiveFault Bytes

/-- The bytes of an opened entry, or the fault of reading it. An entry that cannot be opened is
refused whatever its name. -/
def Listed.open (e : Listed) : Except ArchiveFault (Except ArchiveFault Bytes) :=
  match e.body with
  | .error .malformed => .error .malformed
  | body => .ok body

end ModRemap
