import ModRemap.AccessWidener
import ModRemap.Archive.Jar
import ModRemap.ClassFile.Error

/-! Why a remap fails. -/

namespace ModRemap

inductive RemapError where
  | batch (cause : RemapError)
  | classpath (cause : RemapError)
  | io
  | zip
  | malformedClass (entry : String) (cause : ClassError)
  | missingEntry (entry : String)
  | weaveConfig (path : String)
  | refmap (path : String)
  | accessWidener (path : String) (cause : AccessWidener.Error)
  | artifact
  | unknownTag
deriving DecidableEq, Repr

namespace RemapError

def ofJar : JarError → RemapError
  | .io => .io
  | .zip => .zip

def message : RemapError → String
  | .batch cause => "failed to remap mods: " ++ cause.message
  | .classpath cause => "failed to populate remap classpath: " ++ cause.message
  | .io => "file cannot be read or written"
  | .zip => "malformed archive"
  | .malformedClass entry cause => s!"malformed class {entry}: {cause.message}"
  | .missingEntry entry => s!"no entry {entry}"
  | .weaveConfig path => s!"malformed weave config {path}"
  | .refmap path => s!"malformed refmap {path}"
  | .accessWidener path cause => s!"cannot remap access widener {path}: {cause.message}"
  | .artifact => "artifact cannot be copied"
  | .unknownTag => "input tag does not belong to this remapper"

def jar {α : Type} : Except JarError α → Except RemapError α
  | .ok a => .ok a
  | .error e => .error (.ofJar e)

def file {α : Type} : Except FileError α → Except RemapError α
  | .ok a => .ok a
  | .error _ => .error .io

end RemapError

end ModRemap
