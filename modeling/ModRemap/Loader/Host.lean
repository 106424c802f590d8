import ModRemap.Entrypoints.Adapter

/-! What the host brings: adapters, and a way to make paths loadable. -/

namespace ModRemap

/-- Makes an adapter, or says why that failed. -/
abbrev AdapterConstructor (σ ι : Type) := StateM σ (Except String (LanguageAdapter σ ι))

structure AdapterFactories (σ ι : Type) where
  default : FactoryTable σ ι := ∅
  /-- By the name of the implementation. -/
  constructors : Dict String (AdapterConstructor σ ι) := ∅
  /-- By the name of the class; the names need not differ. -/
  legacy : List (String × LegacyAdapter σ ι) := []

structure Host (σ ι : Type) where
  factories : AdapterFactories σ ι
  /-- Puts a path on the class path. -/
  publish : (path : String) → StateM σ (Except String Unit)

namespace AdapterFactories

variable {σ ι : Type} (factories : AdapterFactories σ ι)

def withConstructor (implementation : String) (constructor : AdapterConstructor σ ι) :
    AdapterFactories σ ι :=
  { factories with constructors := factories.constructors.insert implementation constructor }

def withLegacy (classRef : String) (adapter : LegacyAdapter σ ι) : AdapterFactories σ ι :=
  { factories with legacy := factories.legacy ++ [(classRef, adapter)] }

def outline : String :=
  Text.outlined "AdapterFactories"
    [("default", factories.default.outline),
      ("constructors",
        Text.listed ((Text.sorted factories.constructors.keys).map Text.quoted)),
      ("legacy", Text.listed (factories.legacy.map fun p => Text.quoted p.1))]

end AdapterFactories

end ModRemap
