import ModRemap.Archive.Bzip2.Reader
import ModRemap.Archive.Crc32
import ModRemap.Archive.Deflate.Reader
import ModRemap.Archive.Entry
import ModRemap.Archive.Zip.Listing
import ModRemap.Archive.Zstandard.Reader

/-! Reading zip files. -/

namespace ModRemap.Zip

/-- How the data of an entry are packed. -/
inductive Method where
  | stored
  | deflated
  | bzip2
  | zstandard
deriving DecidableEq, Repr

def Method.ofNat? : Nat → Option Method
  | 0 => some .stored
  | 8 => some .deflated
  | 12 => some .bzip2
  | 93 => some .zstandard
  | _ => none

def Method.unpack? (s : Bytes) : Method → Option Bytes
  | .stored => some s
  | .deflated => Deflate.read? s
  | .bzip2 => Bzip2.read? s
  | .zstandard => Zstandard.read? s

/-- How the data are packed, and where they start. -/
def open? (s : Bytes) (e : Listing) : Option (Method × Nat) := do
  if e.encrypted || e.guarded || (← u4At s e.header) ≠ localSignature then none
  let nameSize ← u2At s (e.header + 26)
  let extraSize ← u2At s (e.header + 28)
  return (← Method.ofNat? e.method, e.header + 30 + nameSize + extraSize)

/-- Data that run past the end of the file are cut there. -/
def dataOf (s : Bytes) (e : Listing) : Except ArchiveFault Bytes :=
  match open? s e with
  | none => .error .malformed
  | some (method, start) =>
    match method.unpack? ((s.drop start).take e.packed) with
    | none => .error .unreadable
    | some data =>
      if (Crc32.checksum data).toNat = e.crc then .ok data else .error .unreadable

/-- All entries in the order of the central directory. -/
def read (s : Bytes) : Except ArchiveFault (List Listed) :=
  match (layout? s).bind fun d => listings? s d.shift d.count d.start with
  | none => .error .malformed
  | some entries => .ok (entries.map fun e => ⟨e.name, dataOf s e⟩)

end ModRemap.Zip
