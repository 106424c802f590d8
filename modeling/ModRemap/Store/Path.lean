import ModRemap.Text.Split

/-! Paths as text, with `/` between the names. -/

namespace ModRemap.Path

open Text

def isAbsolute (path : String) : Bool := starts "/" path

/-- An absolute right side replaces the left one. -/
def join (left right : String) : String :=
  if isAbsolute right then right
  else if left = "" || ends "/" left then left ++ right
  else left ++ "/" ++ right

/-- All that stands between slashes. -/
def pieces (path : String) : List String := (fields '/' path.toList).map String.ofList

def ofPieces (pieces : List String) : String := Text.join "/" pieces

/-- Neither empty nor the same directory. -/
def isName (piece : String) : Bool := piece ≠ "" && piece ≠ "."

def names (path : String) : List String := (pieces path).filter isName

/-- The steps that lead along a path. A step of `.` stays, but only a directory allows it. -/
def steps (path : String) : List String := (pieces path).filter (· ≠ "")

/-- Two texts mean the same path when they agree on where they start and on the names. A leading
`.` starts at the current directory, which is not the same as no start at all. -/
def normal (path : String) : Bool × Bool × List String :=
  (isAbsolute path, path = "." || starts "./" path, names path)

def same (a b : String) : Bool := normal a = normal b

/-- The pieces up to the last name. -/
def upToName (pieces : List String) : List String :=
  (pieces.reverse.dropWhile fun piece => !isName piece).reverse

/-- The path below the root as it is shown: from its first name to its last one. -/
def trimmed (path : String) : String :=
  if isAbsolute path then path
  else ofPieces (upToName ((pieces path).dropWhile fun piece => !isName piece))

/-- The directories that a path goes through, the nearest first. The root is not among them. -/
def ancestors (path : String) : List String :=
  let own := upToName (pieces path)
  (List.range own.length).reverse.filterMap fun n =>
    let front := own.take n
    if front.getLast?.any isName then some (ofPieces front) else none

/-- The directory of a path. -/
def parent (path : String) : String := (ancestors path).headD (if isAbsolute path then "/" else "")

def fileName (path : String) : String := (names path).getLastD ""

/-- What follows the last dot of a name, unless the dot comes first. -/
def extension? (name : String) : Option String :=
  match cutLast? '.' name.toList with
  | some (stem, extension) =>
    if stem.isEmpty || name = ".." then none else some (String.ofList extension)
  | none => none

end ModRemap.Path
