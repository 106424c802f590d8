import ModRemap.Json.Decode
import ModRemap.Json.Reader
import ModRemap.Json.Writer
import ModRemap.Reference

/-! Reference maps: for each class, names for the members that it refers to. -/

namespace ModRemap

/-- References by class and by entry. -/
structure Refmap where
  mappings : Dict String (Dict String String)
deriving DecidableEq

namespace Refmap

def ofJson? (t : RawJson) : Option Refmap := do
  let fields ← t.record? ["mappings"]
  let mappings ← RawJson.withDefault? (RawJson.dict? (RawJson.dict? RawJson.string?)) ∅ fields
    "mappings"
  return ⟨mappings⟩

def parse? (bytes : Bytes) : Option Refmap := (RawJson.parse? bytes).bind ofJson?

def entryJson (p : String × String) : String × Json := (p.1, .string p.2)

def classJson (p : String × Dict String String) : String × Json :=
  (p.1, .object (p.2.entries.map entryJson))

def toJson (m : Refmap) : Json := .object [("mappings", .object (m.mappings.entries.map classJson))]

def write (m : Refmap) : Bytes := bytesOf m.toJson.pretty

/-- Keys stay, references are mapped. -/
def remap (ix : MappingIndex) (m : Refmap) : Refmap :=
  ⟨m.mappings.mapValues fun _ entries => entries.mapValues fun _ r => ix.mapReference r⟩

def remapBytes? (ix : MappingIndex) (bytes : Bytes) : Option Bytes :=
  (parse? bytes).map fun m => (m.remap ix).write

end Refmap

end ModRemap
