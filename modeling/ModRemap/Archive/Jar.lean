import ModRemap.Manifest
import ModRemap.Store.Files

/-! Jars: archives of classes and resources. -/

namespace ModRemap

inductive JarError where
  | io
  | zip
deriving DecidableEq, Repr

def JarError.ofFault : ArchiveFault → JarError
  | .malformed => .zip
  | .unreadable => .io

/-- A jar in the making. A name is written once; later entries of that name are ignored. -/
structure OutputJar where
  path : String
  file : OpenFile
  entries : List Entry := []
  /-- The entries that are in the file. -/
  flushed : List Entry := []
deriving DecidableEq, Repr

namespace Jar

def fault {α : Type} : Except ArchiveFault α → Except JarError α
  | .ok a => .ok a
  | .error e => .error (.ofFault e)

def file {α : Type} : Except FileError α → Except JarError α
  | .ok a => .ok a
  | .error _ => .error .io

/-- The entries of the jar at a path. -/
def list (fs : Files) (path : String) : Except JarError (List Listed) := do
  match ← file (fs.open? path) with
  | .directory => .error .zip
  | .file c => fault c.list

/-- Opens an entry, and reads it when its name is wanted. -/
def entry? (wanted : String → Bool) (e : Listed) : Except JarError (Option Entry) := do
  let body ← fault e.open
  if wanted e.name then return some ⟨e.name, ← fault body⟩ else return none

/-- The entries with wanted names. All are opened in order up to the first fault. -/
def select (wanted : String → Bool) : List Listed → Except JarError (List Entry)
  | [] => .ok []
  | e :: es => do
    let first ← entry? wanted e
    return first.toList ++ (← select wanted es)

/-- The name without the slashes in front. -/
def relative (name : String) : String := String.ofList (name.toList.dropWhile (· = '/'))

/-- The last entry of a name. -/
def readEntry (fs : Files) (path name : String) : Except JarError (Option Bytes) := do
  let entries ← list fs path
  match entries.reverse.find? fun e => e.name = relative name with
  | none => return none
  | some e => return some (← fault (← fault e.open))

def isClass (name : String) : Bool := ends ".class" name

/-- A signature stands directly in `META-INF` and ends in one of four suffixes. -/
def isSignature (name : String) : Bool :=
  match Text.dropStart? "META-INF/".toList name.toList with
  | none => false
  | some file =>
    !file.contains '/' && [".SF", ".RSA", ".DSA", ".EC"].any fun suffix =>
      (Text.dropEnd? suffix.toList (Text.upper file)).isSome

def isManifest (name : String) : Bool :=
  Text.lower name.toList = Text.lower "META-INF/MANIFEST.MF".toList

def isResource (name : String) : Bool :=
  !isDirectoryName name && !isClass name && !isSignature name

/-- The resource as it is copied: a manifest loses the digests of single entries. -/
def copied (e : Entry) : Entry :=
  if isManifest e.name then { e with bytes := Manifest.stripDigests e.bytes } else e

end Jar

namespace OutputJar

/-- Starts a jar: its directory is made, and what was at its path is gone. -/
def create (fs : Files) (path : String) : Files × Except JarError OutputJar :=
  match fs.makeDirectories (Path.parent path) with
  | (fs, .error _) => (fs, .error .io)
  | (fs, .ok ()) =>
    match fs.create path (.begun []) with
    | .error _ => (fs, .error .io)
    | .ok (fs, file) => (fs, .ok { path, file })

def write (jar : OutputJar) (e : Entry) : OutputJar :=
  if jar.entries.any fun old => old.name = e.name then jar
  else { jar with entries := jar.entries ++ [e] }

def writeAll (jar : OutputJar) (es : List Entry) : OutputJar := es.foldl write jar

/-- Copies resources up to the first fault, and counts them, repeated names included. -/
def copyListed (jar : OutputJar) : Nat → List Listed → OutputJar × Except JarError Nat
  | count, [] => (jar, .ok count)
  | count, e :: es =>
    match Jar.entry? Jar.isResource e with
    | .error fault => (jar, .error fault)
    | .ok none => copyListed jar count es
    | .ok (some found) => copyListed (jar.write (Jar.copied found)) (count + 1) es

def copyResources (jar : OutputJar) (fs : Files) (input : String) :
    OutputJar × Except JarError Nat :=
  match Jar.list fs input with
  | .error e => (jar, .error e)
  | .ok listed => jar.copyListed 0 listed

/-- Brings the entries into the file, which is no jar until it is closed. -/
def flush (jar : OutputJar) (fs : Files) : OutputJar × Files :=
  ({ jar with flushed := jar.entries },
    fs.updateOpen jar.file (Content.extend jar.flushed jar.entries))

def close (jar : OutputJar) (fs : Files) : Files :=
  fs.updateOpen jar.file (Content.close jar.flushed jar.entries)

end OutputJar

namespace Jar

/-- An entry as it is kept, if it is. One with a directory's name is opened, but not read. -/
def carryEntry (replaced : String → Bool) (e : Listed) : Except JarError (Option Entry) := do
  let body ← fault e.open
  if replaced e.name then return none
  else if isDirectoryName e.name then return some ⟨e.name, []⟩
  else return some ⟨e.name, ← fault body⟩

end Jar

/-- A jar that is built again, in a file beside it. -/
structure StagedJar where
  files : Files
  file : OpenFile
  written : List Entry := []

namespace StagedJar

def start (fs : Files) (place : Place) : StagedJar where
  files := fs.put place (.file (.begun []))
  file := ⟨place, fs.turn place⟩

def write (jar : StagedJar) (e : Entry) : StagedJar :=
  let written := jar.written ++ [e]
  { jar with files := jar.files.updateOpen jar.file (Content.extend jar.written written), written }

/-- Writes what is kept of the entries, up to the first fault. -/
def carry (replaced : String → Bool) :
    StagedJar → List Listed → StagedJar × Except JarError Unit
  | jar, [] => (jar, .ok ())
  | jar, e :: es =>
    match Jar.carryEntry replaced e with
    | .error fault => (jar, .error fault)
    | .ok none => carry replaced jar es
    | .ok (some kept) => carry replaced (jar.write kept) es

def close (jar : StagedJar) : StagedJar :=
  { jar with files := jar.files.updateOpen jar.file (Content.close jar.written jar.written) }

/-- Those kept come first, in their order. -/
def fill (jar : StagedJar) (path : String) (replacements : Dict String Bytes) :
    StagedJar × Except JarError Unit :=
  match Jar.list jar.files path with
  | .error e => (jar, .error e)
  | .ok listed =>
    match jar.carry replacements.contains listed with
    | (jar, .error e) => (jar, .error e)
    | (jar, .ok ()) => (((replacements.entries.map fun p => ⟨p.1, p.2⟩).foldl write jar).close, .ok ())

/-- The finished file takes the place of the jar; else it is dropped. -/
def finish (jar : StagedJar) (path : String) : Except JarError Unit → Files × Except JarError Unit
  | .error e => (jar.files.drop jar.file.place, .error e)
  | .ok () =>
    match jar.files.move jar.file.place path with
    | .error _ => (jar.files.drop jar.file.place, .error .io)
    | .ok fs => (fs, .ok ())

end StagedJar

namespace Jar

/-- The replacements under the names that entries have. -/
def named (replacements : Dict String Bytes) : Dict String Bytes :=
  Dict.ofList (replacements.entries.map fun p => (relative p.1, p.2))

/-- Builds a jar again in a file at a place where nothing is. -/
def rebuildAt (place : Place) (fs : Files) (path : String) (replacements : Dict String Bytes) :
    Files × Except JarError Unit :=
  let (staged, result) := (StagedJar.start fs place).fill path replacements
  staged.finish path result

/-- Builds a closed jar again, with entries replaced or added. -/
def rebuild (fs : Files) (path : String) (replacements : Dict String Bytes) :
    Files × Except JarError Unit :=
  if replacements.size = 0 then (fs, .ok ())
  else match fs.locate (Path.parent path) with
    | .error _ => (fs, .error .io)
    | .ok directory =>
      if fs.node? directory = some .directory then
        rebuildAt (fs.spare directory path) fs path (named replacements)
      else (fs, .error .io)

/-- The files with the jar built again. If that fails, they are as before. -/
def overwrite (fs : Files) (path : String) (replacements : Dict String Bytes) :
    Except JarError Files :=
  let (files, result) := rebuild fs path replacements
  result.map fun () => files

end Jar

end ModRemap
