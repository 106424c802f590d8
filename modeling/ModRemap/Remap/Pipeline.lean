import ModRemap.Mods.Artifact
import ModRemap.Refmap
import ModRemap.Remap.Remapper

/-! Remapping a batch of mods. Either every selected mod ends up at a complete output jar, or none
of the outputs survives. -/

namespace ModRemap.Pipeline

/-- One selected mod: where it is in the batch, and its jars. -/
structure Job where
  position : Nat
  artifact : Artifact
  tag : Nat
  input : String
  temporary : Bool
  output : String
deriving DecidableEq, Repr

/-- The files, and what a run has registered so far. -/
structure Run where
  files : Files
  remapper : Remapper
  jobs : List Job := []

/-- What has been done before a failure stays done. -/
abbrev Batch := ExceptT RemapError (StateM Run)

def onFiles {α ε : Type} (wrap : ε → RemapError) (act : Files → Files × Except ε α) : Batch α :=
  ExceptT.mk fun run =>
    match act run.files with
    | (files, .ok a) => (.ok a, { run with files })
    | (files, .error e) => (.error (wrap e), { run with files })

/-- Changes the files unless it fails. -/
def changeFiles {ε : Type} (wrap : ε → RemapError) (act : Files → Except ε Files) : Batch Unit :=
  onFiles wrap fun fs =>
    match act fs with
    | .ok fs' => (fs', .ok ())
    | .error e => (fs, .error e)

def askFiles {α ε : Type} (wrap : ε → RemapError) (ask : Files → Except ε α) : Batch α :=
  onFiles wrap fun fs => (fs, ask fs)

def onRemapper {α : Type} (act : Remapper → Files → Remapper × Except RemapError α) : Batch α :=
  ExceptT.mk fun run =>
    match act run.remapper run.files with
    | (remapper, result) => (result, { run with remapper })

def createTag : Batch Nat :=
  onRemapper fun m _ => (m.createTag.2, .ok m.createTag.1)

/-- The jar of a mod on disk, and whether it was put there for the run. -/
def inputOf (tmp : String) (a : Artifact) : Batch (String × Bool) :=
  match a.path? with
  | some path => return (path, false)
  | none => do
    let path ← onFiles (fun _ => .artifact) fun fs => a.copyToTemporary fs tmp
    return (path, true)

/-- Registers the classes of a mod, and clears the place of its output. -/
def stage (tmp out : String) (position : Nat) (a : Artifact) : Batch Unit := do
  let tag ← createTag
  let (input, temporary) ← inputOf tmp a
  let output := Path.join out a.fileName
  modify fun run =>
    { run with jobs := run.jobs ++ [⟨position, a, tag, input, temporary, output⟩] }
  changeFiles (fun _ => .io) fun fs => fs.removeIfThere output
  let _ ← onRemapper fun m fs => m.readInputs tag fs input

/-- Resources first, then classes. The jar is not closed yet. -/
def produce (job : Job) : Batch OutputJar := do
  let jar ← onFiles RemapError.ofJar fun fs => OutputJar.create fs job.output
  let jar ← askFiles RemapError.ofJar fun fs =>
    let (jar, result) := jar.copyResources fs job.input
    result.map fun _ => jar
  let jar ← onRemapper fun m _ =>
    let (jar, result) := m.apply job.tag jar
    (m, result.map fun _ => jar)
  modifyGet fun run =>
    let (jar, files) := jar.flush run.files
    (jar, { run with files })

/-- The access widener that a mod declares, for the target namespace. -/
def widener (ix : MappingIndex) (job : Job) : Batch (Option (String × Bytes)) :=
  match job.artifact.metadata.accessWidener with
  | none => return none
  | some path => do
    match ← askFiles RemapError.ofJar fun fs => Jar.readEntry fs job.input path with
    | none => throw (.missingEntry path)
    | some bytes =>
      match AccessWidener.remap ix bytes with
      | .ok out => return some (path, out)
      | .error e => throw (.accessWidener path e)

/-- The weave configurations that apply anywhere, each once. -/
def weaveConfigs (m : ModMetadata) : List String :=
  (Environment.all.flatMap m.weaveConfigsFor).eraseDups

def refmapOf? (document : Json) : Option String :=
  match document.get? "refmap" with
  | some (.string s) => some s
  | _ => none

/-- The reference map that a weave configuration names; one that is not in the jar names none. -/
def declaredRefmap (job : Job) (config : String) : Batch (Option String) := do
  match ← askFiles RemapError.ofJar fun fs => Jar.readEntry fs job.input config with
  | none => return none
  | some bytes =>
    match (RawJson.parse? bytes).bind RawJson.value? with
    | none => throw (.weaveConfig config)
    | some document => return refmapOf? document

def remapRefmap (ix : MappingIndex) (job : Job) (path : String) :
    Batch (Option (String × Bytes)) := do
  match ← askFiles RemapError.ofJar fun fs => Jar.readEntry fs job.input path with
  | none => return none
  | some bytes =>
    match Refmap.remapBytes? ix bytes with
    | none => throw (.refmap path)
    | some out => return some (path, out)

/-- Closes the jar, and puts the remapped reference maps and access widener into it. -/
def complete (ix : MappingIndex) (job : Job) (jar : OutputJar) (wide : Option (String × Bytes)) :
    Batch Unit := do
  modify fun run => { run with files := jar.close run.files }
  let declared ← (weaveConfigs job.artifact.metadata).mapM (declaredRefmap job)
  let refmaps ← (declared.filterMap id).eraseDups.mapM (remapRefmap ix job)
  let replacements := Dict.ofList (refmaps.filterMap id ++ wide.toList)
  changeFiles RemapError.ofJar fun fs => Jar.overwrite fs job.output replacements

/-- Every mod is registered before any output is made, and every output is made before any is
completed. -/
def phases (ix : MappingIndex) (tmp out : String) (selected : List (Nat × Artifact)) :
    Batch Unit := do
  selected.forM fun p => stage tmp out p.1 p.2
  let jobs := (← get).jobs
  let jars ← jobs.mapM produce
  let wideners ← jobs.mapM (widener ix)
  modify fun run => { run with remapper := run.remapper.finish }
  (jobs.zip (jars.zip wideners)).forM fun p => complete ix p.1 p.2.1 p.2.2

def removeQuietly (fs : Files) (path : String) : Files := (fs.remove path).toOption.getD fs

def dropOutputs (jobs : List Job) (fs : Files) : Files :=
  (jobs.map Job.output).foldl removeQuietly fs

def dropTemporaries (jobs : List Job) (fs : Files) : Files :=
  ((jobs.filter Job.temporary).map Job.input).foldl removeQuietly fs

def selection (artifacts : List Artifact) : List (Nat × Artifact) :=
  (artifacts.zipIdx.map fun p => (p.2, p.1)).filter fun p => p.2.requiresRemap

def repoint (artifacts : List Artifact) (jobs : List Job) : List Artifact :=
  jobs.foldl (fun as job => as.modify job.position fun a => a.setPath job.output) artifacts

/-- Remaps the selected mods and counts them. Without an index or a selected mod nothing happens. -/
def remap (index : Option MappingIndex) (classpath : List String) (tmp out : String)
    (artifacts : List Artifact) (fs : Files) :
    Files × List Artifact × Except RemapError Nat :=
  match index, selection artifacts with
  | none, _ => (fs, artifacts, .ok 0)
  | some _, [] => (fs, artifacts, .ok 0)
  | some ix, selected =>
    match ({ index := ix } : Remapper).readClasspath fs classpath with
    | .error e => (fs, artifacts, .error (.classpath e))
    | .ok (remapper, _) =>
      let (result, run) := (phases ix tmp out selected).run { files := fs, remapper }
      match result with
      | .ok () =>
        (dropTemporaries run.jobs run.files, repoint artifacts run.jobs, .ok run.jobs.length)
      | .error e =>
        (dropTemporaries run.jobs (dropOutputs run.jobs run.files), artifacts,
          .error (.batch e))

end ModRemap.Pipeline
