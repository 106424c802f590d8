import ModRemap.Loader.LogLevel
import ModRemap.Store.Files
import ModRemap.Toml.Reader

/-! The configuration of the loader. -/

namespace ModRemap

structure MappingConfig where
  path : Option String := none
  source : String := "intermediary"
  target : String := "named"
deriving DecidableEq, Repr

structure LoaderConfig where
  gameDirectory : String := "."
  cacheDirectory : String := ".fabric"
  processedDirectory : String := "processedMods"
  temporaryDirectory : String := "tmp"
  /-- The mod that is the loader itself, which is on the class path already. -/
  loaderId : String := "fabricloader"
  mappings : MappingConfig := {}
  /-- Jars and class directories of the host, for inheritance. -/
  classpath : List String := []
  logLevel : LogLevel := .info
  /-- Mods that move to the end of the load order. -/
  loadLate : List String := []
deriving DecidableEq, Repr

inductive ConfigError where
  | unreadable (path : String)
  | malformed (origin : String)
deriving DecidableEq, Repr

namespace LoaderConfig

open Toml

def level? (t : Toml) : Option LogLevel := do
  match LogLevel.parse (← t.string?) with
  | .ok level => return level
  | .error _ => none

def mappings? (t : Toml) : Option MappingConfig := do
  let fields ← t.record? ["path", "source_namespace", "target_namespace"]
  let path ← withDefault? (fun v => v.string?.map some) none fields "path"
  let source ← withDefault? string? ({} : MappingConfig).source fields "source_namespace"
  let target ← withDefault? string? ({} : MappingConfig).target fields "target_namespace"
  return { path, source, target }

def loadLate? (t : Toml) : Option (List String) := do
  withDefault? strings? [] (← t.record? ["load_late"]) "load_late"

/-- Every field may be missing, but there may be no others. -/
def ofToml? (t : Toml) : Option LoaderConfig := do
  let fields ← t.record?
    ["game_dir", "cache_dir", "processed_mods_dir", "tmp_dir", "loader_mod_id", "mappings",
      "remap_classpath", "log_level", "debug"]
  let d : LoaderConfig := {}
  return {
    gameDirectory := ← withDefault? string? d.gameDirectory fields "game_dir"
    cacheDirectory := ← withDefault? string? d.cacheDirectory fields "cache_dir"
    processedDirectory := ← withDefault? string? d.processedDirectory fields "processed_mods_dir"
    temporaryDirectory := ← withDefault? string? d.temporaryDirectory fields "tmp_dir"
    loaderId := ← withDefault? string? d.loaderId fields "loader_mod_id"
    mappings := ← withDefault? mappings? d.mappings fields "mappings"
    classpath := ← withDefault? strings? d.classpath fields "remap_classpath"
    logLevel := ← withDefault? level? d.logLevel fields "log_level"
    loadLate := ← withDefault? loadLate? d.loadLate fields "debug" }

/-- Reads a configuration whose text came from the given place. -/
def parse (origin text : String) : Except ConfigError LoaderConfig :=
  match (Toml.parse? text).bind ofToml? with
  | some config => .ok config
  | none => .error (.malformed origin)

/-- The origin of text that is in no file. -/
def inline : String := "<string>"

/-- The ids between commas, without the blanks around them. -/
def idsOf (list : String) : List String :=
  (((Text.fields ',' list.toList).map Text.trim).filter (· ≠ [])).map String.ofList

/-- Replaces the mods that load late, where there is a list. -/
def overrideLoadLate (list : Option String) (config : LoaderConfig) : LoaderConfig :=
  match list with
  | none => config
  | some list => { config with loadLate := idsOf list }

/-- Reads the file at a path, and applies an override. -/
def load (fs : Files) (path : String) (loadLate : Option String) :
    Except ConfigError LoaderConfig :=
  match (fs.read path).toOption.bind fun c => textOf? c.bytes with
  | none => .error (.unreadable path)
  | some text => (parse path text).map (overrideLoadLate loadLate)

variable (config : LoaderConfig)

def cachePath : String := Path.join config.gameDirectory config.cacheDirectory

def processedPath : String := Path.join config.cachePath config.processedDirectory

def temporaryPath : String := Path.join config.cachePath config.temporaryDirectory

def mappingsPath : Option String := config.mappings.path.map (Path.join config.gameDirectory)

def classpathPaths : List String := config.classpath.map (Path.join config.gameDirectory)

/-- Nothing is set. The game directory is compared as a path. -/
def isDefault : Bool :=
  Path.same config.gameDirectory ({} : LoaderConfig).gameDirectory &&
    { config with gameDirectory := ({} : LoaderConfig).gameDirectory } = {}

end LoaderConfig

end ModRemap
