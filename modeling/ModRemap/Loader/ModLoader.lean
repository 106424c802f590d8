import ModRemap.Entrypoints.Registry
import ModRemap.Loader.Config
import ModRemap.Loader.Host
import ModRemap.Mapping.Source
import ModRemap.Remap.Pipeline

/-! The loader. Mods are loaded in batches until it is frozen; then their adapters and entrypoints
are set up, once. -/

namespace ModRemap

/-- A loaded mod and where its jar is. -/
structure ModContainer where
  metadata : ModMetadata
  path : Option String
  builtin : Bool
deriving DecidableEq, Repr

namespace ModContainer

def ofArtifact (a : Artifact) : ModContainer := ⟨a.metadata, a.path?, a.builtin⟩

def id (m : ModContainer) : String := m.metadata.id

def display (m : ModContainer) : String := m.id ++ " " ++ m.metadata.version

end ModContainer

inductive LoaderError where
  | frozen
  | alreadyFrozen
  | mapping (cause : MappingError)
  | remap (cause : RemapError)
  | extract (modId : String)
  | classpath (path cause : String)
  | unknownImplementation (key implementation : String)
  | adapterInstantiation (key cause : String)
  | setup (cause : SetupError)
  | modSetup (name path : String) (cause : SetupError)
deriving DecidableEq, Repr

def LoaderError.message : LoaderError → String
  | .frozen => "frozen - cannot load additional mods"
  | .alreadyFrozen => "loader is already frozen"
  | .mapping cause => cause.message
  | .remap cause => cause.message
  | .extract modId => s!"error extracting mod {modId}"
  | .classpath path cause => s!"failed to add {path} to the classpath: {cause}"
  | .unknownImplementation key implementation =>
    s!"language adapter '{key}' refers to unknown implementation {implementation}"
  | .adapterInstantiation key _ => s!"failed to instantiate language adapter: {key}"
  | .setup cause => cause.message
  | .modSetup name path _ => s!"failed to setup mod {name} ({path})"

structure ModLoader (σ ι : Type) where
  config : LoaderConfig
  mappings : Option MappingIndex
  host : Host σ ι
  mods : List ModContainer := []
  /-- Mods by their ids and by the ids that they provide; the last one added wins. -/
  known : Dict String ModContainer := ∅
  entrypoints : Option (EntrypointRegistry σ ι) := none
  frozen : Bool := false

namespace ModLoader

variable {σ ι : Type}

/-- The index for the configured namespaces, where there is a mapping file. -/
def mappingsOf (config : LoaderConfig) (fs : Files) :
    Except MappingError (Option MappingIndex) := do
  match ← Tiny.ofFile? fs config.mappingsPath with
  | none => return none
  | some table =>
    return some (← MappingIndex.build table config.mappings.source config.mappings.target)

def make (config : LoaderConfig) (host : Host σ ι) (fs : Files) :
    Except LoaderError (ModLoader σ ι) :=
  match mappingsOf config fs with
  | .error e => .error (.mapping e)
  | .ok mappings => .ok { config, mappings, host }

variable (loader : ModLoader σ ι)

/-! ### Loading -/

/-- Takes the first artifact with an id to the end. -/
def moveLast (artifacts : List Artifact) (id : String) : List Artifact :=
  match artifacts.find? fun a => a.id = id with
  | none => artifacts
  | some found => artifacts.eraseP (fun a => a.id = id) ++ [found]

def moveAllLast (artifacts : List Artifact) (ids : List String) : List Artifact :=
  ids.foldl moveLast artifacts

/-- The line that is logged before a batch is loaded. -/
def announcement (artifacts : List Artifact) : Option String :=
  if loader.frozen then none
  else
    let count := artifacts.length
    let items := artifacts.map fun a => s!"\t- {a.id} {a.version}"
    some (s!"Loading {count} mod" ++ (if count = 1 then "" else "s") ++ ":\n"
      ++ Text.join "\n" items)

def addMod (m : ModContainer) : ModLoader σ ι :=
  { loader with
    mods := loader.mods ++ [m]
    known := (m.id :: m.metadata.provides).foldl (fun known id => known.insert id m) loader.known }

/-- Adds mods in order. One that is only in memory is written out first; a failure leaves those
before it added. -/
def register (loader : ModLoader σ ι) (fs : Files) :
    List Artifact → ModLoader σ ι × Files × Except LoaderError Unit
  | [] => (loader, fs, .ok ())
  | a :: rest =>
    if a.path?.isNone && !a.builtin then
      match a.copyTo fs loader.config.processedPath with
      | (fs, .error _) => (loader, fs, .error (.extract a.id))
      | (fs, .ok path) => register (loader.addMod (.ofArtifact (a.setPath path))) fs rest
    else register (loader.addMod (.ofArtifact a)) fs rest

/-- Remaps, orders and adds the artifacts. -/
def load (artifacts : List Artifact) (fs : Files) :
    ModLoader σ ι × Files × Except LoaderError Unit :=
  if loader.frozen then (loader, fs, .error .frozen)
  else
    let config := loader.config
    match Pipeline.remap loader.mappings config.classpathPaths config.temporaryPath
        config.processedPath artifacts fs with
    | (fs, _, .error e) => (loader, fs, .error (.remap e))
    | (fs, artifacts, .ok _) => loader.register fs (moveAllLast artifacts config.loadLate)

/-! ### Freezing -/

abbrev Setup (σ : Type) := ExceptT LoaderError (StateM σ)

/-- Runs code of the host. -/
def callHost {α : Type} (wrap : String → LoaderError) (act : StateM σ (Except String α)) :
    Setup σ α :=
  ExceptT.mk do return (← act).mapError wrap

/-- Builtin mods and the loader itself are on the class path already. -/
def publishPaths (host : Host σ ι) (config : LoaderConfig) (mods : List ModContainer) :
    Setup σ Unit :=
  mods.forM fun m =>
    match m.path with
    | none => pure ()
    | some path =>
      if m.builtin || m.id = config.loaderId then pure ()
      else callHost (.classpath path) (host.publish path)

def setupStep {α : Type} (wrap : SetupError → LoaderError) (result : Except SetupError α) :
    Setup σ α :=
  ExceptT.mk (pure (result.mapError wrap))

/-- Registers one adapter that a mod declares. -/
def declareAdapter (host : Host σ ι) (adapters : AdapterRegistry σ ι)
    (declared : String × String) : Setup σ (AdapterRegistry σ ι) := do
  let (key, implementation) := declared
  if adapters.keyed.contains key then throw (.setup (.duplicateKey key))
  match host.factories.constructors.get? implementation with
  | none => throw (.unknownImplementation key implementation)
  | some constructor =>
    let adapter ← callHost (.adapterInstantiation key) constructor
    setupStep .setup (adapters.register key adapter)

/-- The adapters of the host, and those that the mods declare. -/
def setupAdapters (host : Host σ ι) (mods : List ModContainer) :
    Setup σ (AdapterRegistry σ ι) := do
  let adapters ← setupStep .setup
    (({} : AdapterRegistry σ ι).register defaultAdapter host.factories.default.adapter)
  let adapters ← host.factories.legacy.foldlM
    (fun adapters p => setupStep .setup (adapters.registerLegacy p.1 p.2)) adapters
  (mods.flatMap fun m => m.metadata.languageAdapters.entries).foldlM (declareAdapter host) adapters

/-- Declarations with their keys, in order. -/
def declarationsOf (metadata : ModMetadata) : List (String × EntrypointDeclaration) :=
  metadata.entrypoints.entries.flatMap fun p => p.2.map (p.1, ·)

/-- The old-style initializers of a mod, then its keyed declarations. -/
def setupMod (registry : EntrypointRegistry σ ι) (m : ModContainer) :
    Except LoaderError (EntrypointRegistry σ ι) :=
  let metadata := m.metadata
  let withLegacy := metadata.legacyInitializers.foldl
    (fun r value => r.addLegacy metadata.id metadata.legacyAdapterName value) registry
  let result := (declarationsOf metadata).foldlM
    (fun r p => r.add metadata.id p.1 p.2.adapter p.2.value) withLegacy
  result.mapError (.modSetup metadata.displayName (m.path.getD "builtin"))

def setup : Setup σ (EntrypointRegistry σ ι) := do
  publishPaths loader.host loader.config loader.mods
  let adapters ← setupAdapters loader.host loader.mods
  ExceptT.mk (pure (loader.mods.foldlM setupMod { adapters }))

/-- Sets everything up. The loader is frozen afterwards even when that fails. -/
def freeze : StateM σ (ModLoader σ ι × Except LoaderError Unit) := do
  if loader.frozen then return (loader, .error .alreadyFrozen)
  match ← loader.setup.run with
  | .ok registry =>
    return ({ loader with frozen := true, entrypoints := some registry }, .ok ())
  | .error e => return ({ loader with frozen := true }, .error e)

/-! ### Looking things up -/

/-- The mod with an id, or that provides it. -/
def mod? (id : String) : Option ModContainer := loader.known.get? id

def isModLoaded (id : String) : Bool := loader.known.contains id

/-- The weave configurations of all mods for an environment, each once. -/
def weaveConfigs (env : Environment) : List String :=
  (loader.mods.flatMap fun m => m.metadata.weaveConfigsFor env).eraseDups

/-- Nothing is found before everything has been set up. -/
def instances (key : String) (capability : Capability) :
    Lookup σ ι (Except EntrypointError (List ι)) :=
  match loader.entrypoints with
  | none => return .ok []
  | some registry => registry.ask (.instances key capability)

def containers (key : String) (capability : Capability) :
    Lookup σ ι (List (EntrypointContainer ι)) :=
  match loader.entrypoints with
  | none => return []
  | some registry => registry.ask (.containers key capability)

def outline : String :=
  Text.outlined "ModLoader"
    [("mods", Text.listed (loader.mods.map fun m => Text.quoted m.display)),
      ("remap", toString loader.mappings.isSome), ("frozen", toString loader.frozen)]

end ModLoader

end ModRemap
