import ModRemap.Json.Decode
import ModRemap.Json.Reader
import ModRemap.Json.Writer
import ModRemap.Mods.Metadata

/-! Mod metadata as JSON. Fields other than the id and the version may be missing. -/

namespace ModRemap

open RawJson

/-- A word, or an object whose only key is the word and whose value is null. -/
def Environment.ofJson? : RawJson → Option Environment
  | .string (some s) => all.find? fun e => e.word = s
  | .object [(some s, .null)] => all.find? fun e => e.word = s
  | _ => none

def EntrypointDeclaration.ofJson? (t : RawJson) : Option EntrypointDeclaration := do
  let fields ← t.record? ["adapter", "value"]
  let adapter ← withDefault? string? defaultAdapter fields "adapter"
  let value ← required? string? fields "value"
  return ⟨adapter, value⟩

def WeaveConfig.ofJson? (t : RawJson) : Option WeaveConfig := do
  let fields ← t.record? ["config", "environment"]
  let config ← required? string? fields "config"
  let environment ← withDefault? (optional? Environment.ofJson?) none fields "environment"
  return ⟨config, environment⟩

namespace ModMetadata

def fieldNames : List String :=
  ["id", "name", "version", "provides", "entrypoints", "legacy_initializers", "legacy_adapter",
    "weave_configs", "access_widener", "language_adapters"]

def ofJson? (t : RawJson) : Option ModMetadata := do
  let fields ← t.record? fieldNames
  let texts := list? string?
  return {
    id := ← required? string? fields "id"
    name := ← withDefault? (optional? string?) none fields "name"
    version := ← required? string? fields "version"
    provides := ← withDefault? texts [] fields "provides"
    entrypoints :=
      ← withDefault? (dict? (list? EntrypointDeclaration.ofJson?)) ∅ fields "entrypoints"
    legacyInitializers := ← withDefault? texts [] fields "legacy_initializers"
    legacyAdapter := ← withDefault? (optional? string?) none fields "legacy_adapter"
    weaveConfigs := ← withDefault? (list? WeaveConfig.ofJson?) [] fields "weave_configs"
    accessWidener := ← withDefault? (optional? string?) none fields "access_widener"
    languageAdapters := ← withDefault? (dict? string?) ∅ fields "language_adapters" }

def parse? (bytes : Bytes) : Option ModMetadata := (RawJson.parse? bytes).bind ofJson?

def textOrNull : Option String → Json
  | none => .null
  | some s => .string s

def declarationJson (d : EntrypointDeclaration) : Json :=
  .object [("adapter", .string d.adapter), ("value", .string d.value)]

def weaveJson (w : WeaveConfig) : Json :=
  .object [("config", .string w.config),
    ("environment", textOrNull (w.environment.map Environment.word))]

def toJson (m : ModMetadata) : Json :=
  let texts (xs : List String) : Json := .array (xs.map .string)
  .object [
    ("id", .string m.id),
    ("name", textOrNull m.name),
    ("version", .string m.version),
    ("provides", texts m.provides),
    ("entrypoints", .object (m.entrypoints.entries.map fun p =>
      (p.1, .array (p.2.map declarationJson)))),
    ("legacy_initializers", texts m.legacyInitializers),
    ("legacy_adapter", textOrNull m.legacyAdapter),
    ("weave_configs", .array (m.weaveConfigs.map weaveJson)),
    ("access_widener", textOrNull m.accessWidener),
    ("language_adapters", .object (m.languageAdapters.entries.map fun p => (p.1, .string p.2)))]

end ModMetadata

end ModRemap
