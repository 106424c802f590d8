import ModRemap.Mods.Metadata
import ModRemap.Store.Files

/-! Mods as the resolver hands them over: metadata, and a jar on disk or in memory. -/

namespace ModRemap

inductive ArtifactSource where
  | path (path : String)
  | memory (content : Content)
deriving DecidableEq, Repr

structure Artifact where
  metadata : ModMetadata
  source : ArtifactSource
  requiresRemap : Bool := false
  builtin : Bool := false
deriving DecidableEq, Repr

namespace Artifact

variable (a : Artifact)

def id : String := a.metadata.id

def version : String := a.metadata.version

def path? : Option String :=
  match a.source with
  | .path p => some p
  | .memory _ => none

def requiring (remap : Bool) : Artifact := { a with requiresRemap := remap }

/-- Artifacts of the host are not remapped. -/
def asBuiltin : Artifact := { a with builtin := true, requiresRemap := false }

def setPath (path : String) : Artifact := { a with source := .path path }

/-- An ASCII letter or digit, a dot, a hyphen or an underscore. -/
def isPlain (c : Char) : Bool := c.isAlphanum || c = '.' || c = '-' || c = '_'

def sanitize (s : String) : String :=
  String.ofList (s.toList.map fun c => if isPlain c then c else '_')

def fileName : String := sanitize a.id ++ "-" ++ sanitize a.version ++ ".jar"

/-- Fills a file that has just been made with the jar. -/
def fill (fs : Files) (target : String) : Except FileError Files :=
  match a.source with
  | .memory c => fs.write target c
  | .path p => do fs.write target (← fs.read p)

/-- Makes the directory, and an empty file in it. -/
def prepare (fs : Files) (directory : String) (name : Files → Except FileError String) :
    Files × Except FileError String :=
  match fs.makeDirectories directory with
  | (fs, .error e) => (fs, .error e)
  | (fs, .ok ()) =>
    match name fs with
    | .error e => (fs, .error e)
    | .ok name =>
      match fs.write (Path.join directory name) (.data []) with
      | .error e => (fs, .error e)
      | .ok filled => (filled, .ok (Path.join directory name))

/-- Copies the jar under its own file name. The file is emptied first, also when the jar cannot be
read then. -/
def copyTo (fs : Files) (directory : String) : Files × Except FileError String :=
  match prepare fs directory fun _ => .ok a.fileName with
  | (fs, .error e) => (fs, .error e)
  | (fs, .ok target) =>
    match a.fill fs target with
    | .ok fs => (fs, .ok target)
    | .error e => (fs, .error e)

/-- Copies the jar under a new name that starts with the id. A failure leaves no file. -/
def copyToTemporary (fs : Files) (directory : String) : Files × Except FileError String :=
  match prepare fs directory fun fs => fs.fresh directory (a.id ++ "-") ".jar" with
  | (fs, .error e) => (fs, .error e)
  | (fs, .ok target) =>
    match a.fill fs target with
    | .ok fs => (fs, .ok target)
    | .error e => ((fs.remove target).toOption.getD fs, .error e)

end Artifact

end ModRemap
