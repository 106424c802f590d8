import ModRemap.Mapping.Tiny
import ModRemap.Store.Files

/-! Mapping tables in files. -/

namespace ModRemap.Tiny

def ofFile (fs : Files) (path : String) : Except MappingError MappingTable :=
  match fs.read path with
  | .ok content => parseBytes content.bytes
  | .error _ => .error .unreadable

/-- Where no path is given, or nothing is there, there is no table. -/
def ofFile? (fs : Files) (path : Option String) : Except MappingError (Option MappingTable) :=
  match path with
  | none => .ok none
  | some path => if fs.exists? path then (ofFile fs path).map some else .ok none

end ModRemap.Tiny
