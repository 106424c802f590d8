import ModRemap.Dict

/-! What a mod declares about itself. -/

namespace ModRemap

inductive Environment where
  | client
  | server
deriving DecidableEq, Repr

namespace Environment

def all : List Environment := [.client, .server]

def word : Environment → String
  | .client => "client"
  | .server => "server"

end Environment

/-- A value, and the key of the language adapter that makes an instance of it. -/
structure EntrypointDeclaration where
  adapter : String
  value : String
deriving DecidableEq, Repr

/-- A weave configuration in the jar; without an environment it applies to every one. -/
structure WeaveConfig where
  config : String
  environment : Option Environment
deriving DecidableEq, Repr

def WeaveConfig.appliesTo (w : WeaveConfig) (env : Environment) : Bool :=
  w.environment.all (· = env)

structure ModMetadata where
  id : String
  name : Option String := none
  version : String
  provides : List String := []
  entrypoints : Dict String (List EntrypointDeclaration) := ∅
  legacyInitializers : List String := []
  legacyAdapter : Option String := none
  weaveConfigs : List WeaveConfig := []
  accessWidener : Option String := none
  languageAdapters : Dict String String := ∅
deriving DecidableEq, Repr

/-- The key of the adapter that every host has. -/
def defaultAdapter : String := "default"

def defaultLegacyAdapter : String := "net.fabricmc.loader.language.JavaLanguageAdapter"

namespace ModMetadata

variable (m : ModMetadata)

def displayName : String := m.name.getD m.id

def legacyAdapterName : String := m.legacyAdapter.getD defaultLegacyAdapter

/-- The weave configurations of an environment that have a name. -/
def weaveConfigsFor (env : Environment) : List String :=
  ((m.weaveConfigs.filter fun w => w.appliesTo env).map WeaveConfig.config).filter (· ≠ "")

def addEntrypoint (key adapter value : String) : ModMetadata :=
  { m with entrypoints := m.entrypoints.update key fun ds => ds.getD [] ++ [⟨adapter, value⟩] }

def addLegacyInitializer (value : String) : ModMetadata :=
  { m with legacyInitializers := m.legacyInitializers ++ [value] }

def addWeaveConfig (config : String) (environment : Option Environment) : ModMetadata :=
  { m with weaveConfigs := m.weaveConfigs ++ [⟨config, environment⟩] }

def withAccessWidener (path : String) : ModMetadata := { m with accessWidener := some path }

def addLanguageAdapter (key implementation : String) : ModMetadata :=
  { m with languageAdapters := m.languageAdapters.insert key implementation }

end ModMetadata

end ModRemap
