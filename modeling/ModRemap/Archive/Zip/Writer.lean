import ModRemap.Archive.Crc32
import ModRemap.Archive.Deflate.Writer
import ModRemap.Archive.Entry
import ModRemap.Archive.Zip.Basic

/-! Writing zip files. The header of an entry is written before its data, and its sizes are filled
in when the next entry begins or the archive is closed. -/

namespace ModRemap.Zip

/-! ### Patches -/

/-- Bytes that are written at a position of a file. -/
structure Patch where
  start : Nat
  bytes : Bytes
deriving DecidableEq, Repr

/-- Zeros come before a position behind the end. -/
def Patch.apply (s : Bytes) (p : Patch) : Bytes :=
  s.take p.start ++ List.replicate (p.start - s.length) 0 ++ p.bytes ++
    s.drop (p.start + p.bytes.length)

def applyAll (s : Bytes) (ps : List Patch) : Bytes := ps.foldl Patch.apply s

/-! ### Records -/

/-- An entry at its position, and its data as they are packed. -/
structure Record where
  start : Nat
  entry : Entry
  packed : Bytes
deriving DecidableEq, Repr

namespace Record

def name (r : Record) : Bytes := bytesOf r.entry.name

/-- How a reader unpacks the entry and decodes its name: version, flag, method and time. -/
def manner (r : Record) : Bytes :=
  ofU2 20 ++ ofU2 (if r.name.all (· < 0x80) then 0 else 0x800) ++ ofU2 8 ++ ofU4 0x00210000

/-- Checksum and sizes. -/
def figures (r : Record) : Bytes :=
  ofU4 (Crc32.checksum r.entry.bytes).toNat ++ ofU4 r.packed.length ++ ofU4 r.entry.bytes.length

/-- The lengths of the name and of the extra fields. -/
def lengths (r : Record) : Bytes := ofU2 r.name.length ++ ofU2 0

def headerSize (r : Record) : Nat := 30 + r.name.length

def stop (r : Record) : Nat := r.start + r.headerSize + r.packed.length

/-- The header, whose figures are not known yet. -/
def header (r : Record) : Patch where
  start := r.start
  bytes := ofU4 localSignature ++ r.manner ++ List.replicate 12 0 ++ r.lengths ++ r.name

/-- The data, and then the figures in the header. -/
def rest (r : Record) : List Patch :=
  [⟨r.start + r.headerSize, r.packed⟩, ⟨r.start + 14, r.figures⟩]

/-- The record of the central directory. It tells who may read and write a file. -/
def listed (r : Record) : Bytes :=
  ofU4 directorySignature ++ ofU2 0x032E ++ r.manner ++ r.figures ++ r.lengths ++ ofU2 0 ++
    ofU2 0 ++ ofU2 0 ++ ofU4 0x81A40000 ++ ofU4 r.start ++ r.name

end Record

def recordsFrom : Nat → List Entry → List Record
  | _, [] => []
  | start, e :: es =>
    let r : Record := ⟨start, e, Deflate.write e.bytes⟩
    r :: recordsFrom r.stop es

/-! ### Archives -/

/-- What is written before the archive is closed. The last entry has no more than its header. -/
def opening (entries : List Entry) : List Patch :=
  (recordsFrom 0 entries).flatMap (fun r => r.header :: r.rest) |>.dropLast.dropLast

/-- The central directory, and the end record, behind all entries. -/
def directory (records : List Record) : Patch :=
  let start := (records.getLast?.map Record.stop).getD 0
  let listed := records.flatMap Record.listed
  ⟨start, listed ++ ofU4 endSignature ++ ofU2 0 ++ ofU2 0 ++ ofU2 records.length ++
    ofU2 records.length ++ ofU4 listed.length ++ ofU4 start ++ ofU2 0⟩

/-- What is written when the archive is closed. -/
def closing (entries : List Entry) : List Patch :=
  let records := recordsFrom 0 entries
  (records.getLast?.map Record.rest).getD [] ++ [directory records]

def write (entries : List Entry) : Bytes := applyAll [] (opening entries ++ closing entries)

end ModRemap.Zip
