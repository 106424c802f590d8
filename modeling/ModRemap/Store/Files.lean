import ModRemap.Archive.Content
import ModRemap.Dict
import ModRemap.Store.Path

/-! Directories and files below one root. Every node but the root is listed after its directory.
Paths start at the root; an absolute one, or one that leaves the root, leads nowhere. -/

namespace ModRemap

inductive Node where
  | directory
  | file (content : Content)
deriving DecidableEq, Repr

/-- Where something is: the names on the way from the root. -/
abbrev Place := List String

inductive FileError where
  | notFound
  | refused
deriving DecidableEq, Repr

structure Files where
  nodes : Dict Place Node
  /-- How often the file at a place has been removed, or another one put there. -/
  turns : Dict Place Nat := ∅
deriving DecidableEq

/-- A file that has been opened for writing. It stays that file when its place is given to another
one. -/
structure OpenFile where
  place : Place
  turn : Nat
deriving DecidableEq, Repr

namespace Files

def empty : Files := ⟨∅, ∅⟩

instance : EmptyCollection Files := ⟨empty⟩

instance : Inhabited Files := ⟨empty⟩

def node? (fs : Files) (place : Place) : Option Node :=
  if place = [] then some .directory else fs.nodes.get? place

def put (fs : Files) (place : Place) (n : Node) : Files :=
  { fs with nodes := fs.nodes.insert place n }

def turn (fs : Files) (place : Place) : Nat := (fs.turns.get? place).getD 0

/-- Whatever is open at a place is no longer the file there. -/
def detach (fs : Files) (place : Place) : Files :=
  { fs with turns := fs.turns.insert place (fs.turn place + 1) }

/-- A path fits into 4095 bytes together with the root, and holds no NUL. -/
def isPath (path : String) : Bool :=
  (bytesOf path).length ≤ 4079 && !path.toList.contains '\x00'

/-- A name fits into 255 bytes. -/
def isNameable (name : String) : Bool := (bytesOf name).length ≤ 255

/-- Follows steps from a place; all but the last must lead through directories. -/
def follow (fs : Files) (place : Place) : List String → Except FileError Place
  | [] => .ok place
  | step :: steps =>
    match fs.node? place with
    | none => .error .notFound
    | some (.file _) => .error .refused
    | some .directory =>
      if step = "." then follow fs place steps
      else if step = ".." then
        if place = [] then .error .notFound else follow fs place.dropLast steps
      else if isNameable step then follow fs (place ++ [step]) steps
      else .error .refused

/-- The place that a path names, whether or not anything is there. -/
def locate (fs : Files) (path : String) : Except FileError Place :=
  if !isPath path then .error .refused
  else if Path.isAbsolute path then .error .notFound
  else match follow fs [] (Path.steps path) with
    | .error e => .error e
    | .ok place =>
      match ends "/" path, fs.node? place with
      | true, some (.file _) => .error .refused
      | _, _ => .ok place

/-- What a path leads to. -/
def open? (fs : Files) (path : String) : Except FileError Node := do
  match fs.node? (← fs.locate path) with
  | some n => .ok n
  | none => .error .notFound

def exists? (fs : Files) (path : String) : Bool :=
  match fs.open? path with
  | .ok _ => true
  | .error _ => false

def isDirectory (fs : Files) (path : String) : Bool :=
  match fs.open? path with
  | .ok .directory => true
  | _ => false

def read (fs : Files) (path : String) : Except FileError Content := do
  match ← fs.open? path with
  | .file c => .ok c
  | .directory => .error .refused

/-- Puts a file where there is none, or gives the file there a new content. -/
def write (fs : Files) (path : String) (c : Content) : Except FileError Files := do
  let place ← fs.locate path
  match fs.node? place with
  | some .directory => .error .refused
  | none => if ends "/" path then .error .refused else .ok (fs.put place (.file c))
  | some (.file _) => .ok (fs.put place (.file c))

/-- Gives a file a new content, and opens it for writing. -/
def create (fs : Files) (path : String) (c : Content) : Except FileError (Files × OpenFile) := do
  let fs ← fs.write path c
  let place ← fs.locate path
  return (fs, ⟨place, fs.turn place⟩)

/-- Changes the content of an open file. Nothing is seen of it when its place is another file's. -/
def updateOpen (fs : Files) (f : OpenFile) (change : Content → Content) : Files :=
  match fs.node? f.place with
  | some (.file c) => if fs.turn f.place = f.turn then fs.put f.place (.file (change c)) else fs
  | _ => fs

/-- Puts another file at the place of a path. -/
def replace (fs : Files) (path : String) (c : Content) : Except FileError Files := do
  let fs ← fs.write path c
  return fs.detach (← fs.locate path)

/-- Makes a directory in one that is there. -/
def makeDirectory (fs : Files) (path : String) : Except FileError Files := do
  let steps := Path.steps path
  if !isPath path || Path.isAbsolute path then .error .refused
  let place ← follow fs [] steps.dropLast
  match fs.node? place, steps.getLast? with
  | none, _ => .error .notFound
  | some .directory, some step =>
    if step = "." || step = ".." || !isNameable step then .error .refused
    else if (fs.node? (place ++ [step])).isSome then .error .refused
    else .ok (fs.put (place ++ [step]) .directory)
  | _, _ => .error .refused

/-- Makes a directory unless it is there. -/
def ensureDirectory (fs : Files) (path : String) : Files × Except FileError Unit :=
  match fs.makeDirectory path with
  | .ok fs => (fs, .ok ())
  | .error e => (fs, if fs.isDirectory path then .ok () else .error e)

/-- Makes a directory, and those above it where its own is missing. -/
def ensureAll (fs : Files) (path : String) : List String → Files × Except FileError Unit
  | [] => fs.ensureDirectory path
  | parent :: above =>
    match fs.makeDirectory path with
    | .error .notFound =>
      match ensureAll fs parent above with
      | (fs, .error e) => (fs, .error e)
      | (fs, .ok ()) => fs.ensureDirectory path
    | _ => fs.ensureDirectory path

/-- Makes a directory and those above it. What has been made before a failure stays. -/
def makeDirectories (fs : Files) (path : String) : Files × Except FileError Unit :=
  ensureAll fs path (Path.ancestors path)

def remove (fs : Files) (path : String) : Except FileError Files := do
  let place ← fs.locate path
  match fs.node? place with
  | none => .error .notFound
  | some .directory => .error .refused
  | some (.file _) => .ok ({ fs with nodes := fs.nodes.erase place }.detach place)

/-- Removes a file; that there is none is no failure. -/
def removeIfThere (fs : Files) (path : String) : Except FileError Files :=
  match fs.remove path with
  | .error .notFound => .ok fs
  | result => result

/-- Takes away a file that nobody has open. -/
def drop (fs : Files) (place : Place) : Files := { fs with nodes := fs.nodes.erase place }

/-- Moves a file that nobody has open to the place of a path, where it becomes another file. -/
def move (fs : Files) (place : Place) (path : String) : Except FileError Files :=
  match fs.node? place with
  | some (.file c) => (fs.replace path c).map fun moved => moved.drop place
  | _ => .error .notFound

/-- A place in a directory that nothing has, and that a path does not name. -/
def spare (fs : Files) (directory : Place) (path : String) : Place :=
  let numbered (n : Nat) : Place := directory ++ [".tmp" ++ toString n]
  -- One place more than can be taken.
  let places := (List.range (fs.nodes.size + 2)).map numbered
  let free (place : Place) : Bool := fs.node? place = none && (fs.locate path).toOption ≠ some place
  (places.find? free).getD directory

/-- The files below a directory, with their places. -/
def below (fs : Files) (place : Place) : List (Place × Content) :=
  fs.nodes.entries.filterMap fun (p, n) =>
    match n with
    | .file c => if place.isPrefixOf p then some (p, c) else none
    | .directory => none

/-- The first numbered name of this form that is free in a directory. -/
def freeName (fs : Files) (directory stem suffix : String) : Nat → Nat → Except FileError String
  | 0, _ => .error .refused
  | tries + 1, n =>
    let name := stem ++ toString n ++ suffix
    if fs.exists? (Path.join directory name) then freeName fs directory stem suffix tries (n + 1)
    else .ok name

/-- A name in a directory that nothing has yet. It is told from others by a number of six digits. -/
def fresh (fs : Files) (directory stem suffix : String) : Except FileError String :=
  fs.freeName directory stem suffix 900000 100000

end Files

end ModRemap
