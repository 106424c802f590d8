import ModRemap.Remap.ClassFile
import ModRemap.Remap.Error

/-! The classes to be remapped, registered under tags before any of them is changed, so that all
know each other's supertypes. -/

namespace ModRemap

structure Remapper where
  index : MappingIndex
  hierarchy : Hierarchy := ∅
  /-- The classes of each tag. -/
  inputs : List (List Entry) := []
  finished : Bool := false

namespace Remapper

def resolver (m : Remapper) : Resolver := ⟨m.index, m.hierarchy⟩

/-- Tags count from 0. -/
def createTag (m : Remapper) : Nat × Remapper :=
  (m.inputs.length, { m with inputs := m.inputs ++ [[]] })

def isInput (name : String) : Bool := !isDirectoryName name && Jar.isClass name

def classError {α : Type} (entry : String) : Except ClassError α → Except RemapError α
  | .ok a => .ok a
  | .error e => .error (.malformedClass entry e)

/-- Takes the headers of the classes into the hierarchy up to the first fault, and yields the
classes. -/
def readListed (h : Hierarchy) (found : List Entry) :
    List Listed → Hierarchy × Except RemapError (List Entry)
  | [] => (h, .ok found)
  | e :: es =>
    match RemapError.jar (Jar.entry? isInput e) with
    | .error fault => (h, .error fault)
    | .ok none => readListed h found es
    | .ok (some c) =>
      match classError c.name (ClassFile.parseHeader c.bytes) with
      | .error fault => (h, .error fault)
      | .ok header => readListed (h.insert header.name header) (found ++ [c]) es

/-- Registers the classes of a jar, and counts them. A header that is known already is replaced. -/
def readInputs (m : Remapper) (tag : Nat) (fs : Files) (path : String) :
    Remapper × Except RemapError Nat :=
  match Jar.list fs path with
  | .error e => (m, .error (.ofJar e))
  | .ok listed =>
    match readListed m.hierarchy [] listed with
    | (hierarchy, .error e) => ({ m with hierarchy }, .error e)
    | (hierarchy, .ok found) =>
      if tag < m.inputs.length then
        ({ m with hierarchy, inputs := m.inputs.modify tag (· ++ found) }, .ok found.length)
      else ({ m with hierarchy }, .error .unknownTag)

/-! ### Host classes -/

def readableHeaders (es : List Entry) : List ClassHeader :=
  es.filterMap fun e => (ClassFile.parseHeader e.bytes).toOption

def isClassFile (place : Place) : Bool :=
  Path.extension? (place.getLastD "") = some "class"

/-- The class headers below a directory or in a jar; where there is nothing, none. Classes that
cannot be read are passed over. -/
def pathHeaders (fs : Files) (path : String) : Except RemapError (List ClassHeader) :=
  match fs.open? path with
  | .error _ => .ok []
  | .ok .directory =>
    match fs.locate path with
    | .error _ => .ok []
    | .ok place =>
      .ok (readableHeaders (((fs.below place).filter fun p => isClassFile p.1).map fun p =>
        ⟨p.1.getLastD "", p.2.bytes⟩))
  | .ok (.file c) => do
    let listed ← RemapError.jar (Jar.fault c.list)
    return readableHeaders (← RemapError.jar (Jar.select Jar.isClass listed))

def classpathHeaders (fs : Files) : List String → Except RemapError (List ClassHeader)
  | [] => .ok []
  | path :: paths => do
    let here ← pathHeaders fs path
    return here ++ (← classpathHeaders fs paths)

/-- A header whose names are in the target namespace, in the source namespace. -/
def toSource (ix : MappingIndex) (h : ClassHeader) : ClassHeader :=
  let unmap (name : String) := (ix.unmapClass name).getD name
  ⟨unmap h.name, h.superclass.map unmap, h.interfaces.map unmap⟩

/-- A class that is in the hierarchy already stays as it is. -/
def addHost (ix : MappingIndex) (h : Hierarchy) (header : ClassHeader) : Hierarchy :=
  let header := toSource ix header
  h.insertNew header.name header

/-- Adds host classes to the hierarchy, and counts them. They are in the target namespace. -/
def readClasspath (m : Remapper) (fs : Files) (paths : List String) :
    Except RemapError (Remapper × Nat) := do
  let headers ← classpathHeaders fs paths
  return ({ m with hierarchy := headers.foldl (addHost m.index) m.hierarchy }, headers.length)

/-! ### Output -/

/-- The name of a class entry follows the name of the class, with whatever stood before it. -/
def renamedEntry (name old new : String) : String :=
  if old = new then name
  else match Text.dropEnd? (old ++ ".class").toList name.toList with
    | some front => String.ofList front ++ new ++ ".class"
    | none => name

def remapEntry (r : Resolver) (e : Entry) : Except RemapError Entry := do
  let renamed ← classError e.name (r.remapClass e.bytes)
  return ⟨renamedEntry e.name renamed.old renamed.new, renamed.bytes⟩

/-- Writes the remapped classes up to the first fault. -/
def applyAll (r : Resolver) (jar : OutputJar) : List Entry → OutputJar × Except RemapError Unit
  | [] => (jar, .ok ())
  | e :: es =>
    match remapEntry r e with
    | .error fault => (jar, .error fault)
    | .ok out => applyAll r (jar.write out) es

/-- Writes every class of a tag, remapped, and counts them. -/
def apply (m : Remapper) (tag : Nat) (jar : OutputJar) : OutputJar × Except RemapError Nat :=
  match m.inputs[tag]? with
  | none => (jar, .error .unknownTag)
  | some classes =>
    let (jar, result) := applyAll m.resolver jar classes
    (jar, result.map fun () => classes.length)

/-- Lets go of all classes and of the hierarchy, the first time. -/
def finish (m : Remapper) : Remapper :=
  if m.finished then m else { m with hierarchy := ∅, inputs := [], finished := true }

end Remapper

end ModRemap
