import ModRemap.Entrypoints.Construction
import ModRemap.Text.Outline

/-! Language adapters turn what mods declare into instances. Keyed adapters are named in the
declaration; old-style adapters are named by their class and make one instance for all
capabilities. -/

namespace ModRemap

/-- From the mod and the declared value; the instance has to be usable as the capability. -/
abbrev LanguageAdapter (σ ι : Type) :=
  (modId value : String) → (capability : Capability) → Construction σ ι (TypedInstance ι)

abbrev LegacyAdapter (σ ι : Type) := (value : String) → Construction σ ι (UntypedInstance ι)

/-- Constructions by value and capability. -/
abbrev FactoryTable (σ ι : Type) := Dict (String × Capability) (Construction σ ι ι)

namespace FactoryTable

variable {σ ι : Type}

def adapter (table : FactoryTable σ ι) : LanguageAdapter σ ι := fun modId value capability =>
  match table.get? (value, capability) with
  | some factory => factory.map (TypedInstance.mk capability)
  | none =>
    .finish (.error s!"{value} (declared by {modId}) does not provide {capability.name}")

def outline (table : FactoryTable σ ι) : String :=
  Text.outlined "DefaultLanguageAdapter" [("factories", toString table.size)]

end FactoryTable

/-- Why adapters or declarations cannot be registered. -/
inductive SetupError where
  | adapterNotFound (adapter modId : String)
  | duplicateKey (key : String)
deriving DecidableEq, Repr

def SetupError.message : SetupError → String
  | .adapterNotFound adapter modId => s!"could not find adapter '{adapter}' for mod {modId}"
  | .duplicateKey key => s!"duplicate language adapter key '{key}'"

structure AdapterRegistry (σ ι : Type) where
  keyed : Dict String (LanguageAdapter σ ι) := ∅
  legacy : Dict String (LegacyAdapter σ ι) := ∅

namespace AdapterRegistry

variable {σ ι : Type} (adapters : AdapterRegistry σ ι)

/-- A key is registered once. -/
def register (key : String) (adapter : LanguageAdapter σ ι) :
    Except SetupError (AdapterRegistry σ ι) :=
  if adapters.keyed.contains key then .error (.duplicateKey key)
  else .ok { adapters with keyed := adapters.keyed.insert key adapter }

def registerLegacy (classRef : String) (adapter : LegacyAdapter σ ι) :
    Except SetupError (AdapterRegistry σ ι) :=
  if adapters.legacy.contains classRef then .error (.duplicateKey classRef)
  else .ok { adapters with legacy := adapters.legacy.insert classRef adapter }

def outline : String :=
  Text.outlined "LanguageAdapterRegistry"
    [("adapters", Text.listed ((Text.sorted adapters.keyed.keys).map Text.quoted)),
      ("legacy", toString adapters.legacy.size)]

end AdapterRegistry

end ModRemap
