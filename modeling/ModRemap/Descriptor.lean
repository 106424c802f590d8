/-! Class names inside field and method descriptors, which write a class as its name between `L`
and `;`. Any text is taken as it is; only such names change. -/

namespace ModRemap.Descriptor

def substitute (f : String → Option String) (name : List Char) : List Char :=
  ((f (String.ofList name)).getD (String.ofList name)).toList

/-- Outside of a name the first argument is `none`; inside it holds what has been read of the name,
last character first. A name that is never closed stays. -/
def renameFrom (f : String → Option String) : Option (List Char) → List Char → List Char
  | none, [] => []
  | none, c :: s => c :: renameFrom f (if c = 'L' then some [] else none) s
  | some read, [] => read.reverse
  | some read, c :: s =>
    if c = ';' then substitute f read.reverse ++ ';' :: renameFrom f none s
    else renameFrom f (some (c :: read)) s

def rename (f : String → Option String) (descriptor : String) : String :=
  String.ofList (renameFrom f none descriptor.toList)

end ModRemap.Descriptor
