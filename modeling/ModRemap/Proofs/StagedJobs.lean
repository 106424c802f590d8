import Mathlib
import ModRemap.Proofs.Rollback
import ModRemap.Proofs.SuccessfulSteps

/-! Jobs once every mod is registered. The jar of each mod is still there, because no output is where
an input is. -/

namespace ModRemap

theorem Remapper.readInputs_eq_ok {m m' : Remapper} {tag n : ℕ} {fs : Files} {path : String} :
    m.readInputs tag fs path = (m', .ok n) ↔ ∃ listed classes hs, Jar.list fs path = .ok listed ∧
      Registers listed classes hs ∧ tag < m.inputs.length ∧ n = classes.length ∧
      m' = { m with
        hierarchy := m.hierarchy.add hs
        inputs := m.inputs.modify tag (· ++ classes) } := by
  unfold readInputs
  constructor
  · intro h
    split at h
    · exact nomatch (Prod.mk.inj h).2
    · rename_i listed whole
      split at h
      · exact nomatch (Prod.mk.inj h).2
      · rename_i hierarchy found read
        obtain ⟨classes, hs, registers, rfl, rfl⟩ := readListed_eq_ok.mp read
        split_ifs at h with known
        · obtain ⟨rfl, count⟩ := Prod.mk.inj h
          obtain rfl := Except.ok.inj count
          exact ⟨listed, found, hs, whole, registers, known, rfl, rfl⟩
        · exact nomatch (Prod.mk.inj h).2
  · rintro ⟨listed, classes, hs, whole, registers, known, rfl, rfl⟩
    have read : readListed m.hierarchy [] listed = (m.hierarchy.add hs, .ok classes) :=
      readListed_eq_ok.mpr ⟨classes, hs, registers, rfl, rfl⟩
    rw [whole]
    dsimp only
    rw [read]
    dsimp only
    rw [if_pos known]

/-- Two paths lead to different places, if anywhere. -/
def Files.Apart (fs : Files) (path path' : String) : Prop :=
  ∀ p, fs.locate path = .ok p → fs.locate path' ≠ .ok p

theorem Files.apart_of_locate {fs : Files} {path path' : String} {p q : Place}
    (found : fs.locate path = .ok p) (found' : fs.locate path' = .ok q) (other : p ≠ q) :
    fs.Apart path path' := by
  intro r here there
  obtain rfl := Except.ok.inj (found.symm.trans here)
  exact other (Except.ok.inj (there.symm.trans found'))

namespace Pipeline

/-- No output is where an input is. -/
def Apart (fs : Files) (jobs : List Job) : Prop :=
  ∀ j ∈ jobs, ∀ k ∈ jobs, fs.Apart j.input k.output

theorem Apart.mono {fs : Files} {jobs jobs' : List Job} (h : Apart fs jobs)
    (fewer : ∀ job ∈ jobs', job ∈ jobs) : Apart fs jobs' :=
  fun j hj k hk => h j (fewer j hj) k (fewer k hk)

variable {start final : Files} {tmp out : String} {run run' : Run} {job : Job} {a : Artifact}

/-- A jar is still read when files change elsewhere. Where it is shows in the end. -/
theorem read_apart {fs fs' : Files} {P : Place → Prop} {input : String} {content : Content}
    (read : fs.read input = .ok content) (keeps : Files.Keeps P fs fs')
    (later : Files.Keeps (fun _ => True) fs final)
    (elsewhere : ∀ p, P p → final.locate input ≠ .ok p) : fs'.read input = .ok content := by
  obtain ⟨p, found, there⟩ := Files.read_eq_ok.mp read
  have plain := Files.isPlain_of_file found there
  refine keeps.read read fun q found' inside => elsewhere q inside ?_
  obtain rfl := Except.ok.inj ((keeps.locate plain found).symm.trans found')
  exact later.locate plain found

theorem list_apart {fs fs' : Files} {P : Place → Prop} {input : String} {listed : List Listed}
    (whole : Jar.list fs input = .ok listed) (keeps : Files.Keeps P fs fs')
    (later : Files.Keeps (fun _ => True) fs final)
    (elsewhere : ∀ p, P p → final.locate input ≠ .ok p) : Jar.list fs' input = .ok listed := by
  obtain ⟨content, read, known⟩ := Jar.list_eq_ok.mp whole
  exact Jar.list_eq_ok.mpr ⟨content, read_apart read keeps later elsewhere, known⟩

/-- What a run knows of a job: what its jar holds, and the classes under its tag. -/
structure Fed (run : Run) (job : Job) (listed : List Listed) (classes : List Entry)
    (hs : List ClassHeader) : Prop where
  whole : Jar.list run.files job.input = .ok listed
  tagged : run.remapper.inputs[job.tag]? = some classes
  registers : Remapper.Registers listed classes hs

/-- A job of which the jar is that of its mod. -/
def Supplied (start : Files) (run : Run) (job : Job) : Prop :=
  ∃ listed classes hs, Fed run job listed classes hs ∧
    ∀ c, job.artifact.jar start = .ok c → c.list = .ok listed

/-- Where the jar of a mod comes from: it is on disk, or has just been copied there. -/
inductive Placed (tmp : String) (a : Artifact) (fs : Files) : Files → String → Bool → Prop where
  | path {path : String} (source : a.source = .path path) : Placed tmp a fs fs path false
  | memory {files : Files} {path : String} {c : Content} (source : a.source = .memory c)
      (copied : a.copyToTemporary fs tmp = (files, .ok path)) : Placed tmp a fs files path true

theorem inputOf_eq_ok {input : String} {temporary : Bool}
    (h : (inputOf tmp a).run run = (.ok (input, temporary), run')) :
    ∃ files, Placed tmp a run.files files input temporary ∧ run' = { run with files } := by
  unfold inputOf Artifact.path? at h
  cases source : a.source with
  | path path =>
    rw [source] at h
    dsimp only at h
    obtain ⟨same, rfl⟩ := run_pure_eq_ok.mp h
    obtain ⟨rfl, rfl⟩ := Prod.mk.inj same
    exact ⟨run.files, .path source, rfl⟩
  | memory c =>
    rw [source] at h
    dsimp only at h
    obtain ⟨path, mid, taken, h⟩ := run_bind_eq_ok.mp h
    obtain ⟨files, copied, rfl⟩ := run_onFiles_eq_ok.mp taken
    obtain ⟨same, rfl⟩ := run_pure_eq_ok.mp h
    obtain ⟨rfl, rfl⟩ := Prod.mk.inj same
    refine ⟨files, ?_, rfl⟩
    exact Placed.memory source copied

theorem run_inputOf {files : Files} {input : String} {temporary : Bool}
    (placed : Placed tmp a run.files files input temporary) :
    (inputOf tmp a).run run = (.ok (input, temporary), { run with files }) := by
  unfold inputOf Artifact.path?
  cases placed with
  | path source =>
    rw [source]
    rfl
  | memory source copied =>
    rw [source]
    exact run_bind_eq_ok.mpr ⟨input, _, run_onFiles_eq_ok.mpr ⟨files, copied, rfl⟩,
      run_pure_eq_ok.mpr ⟨rfl, rfl⟩⟩

/-- A stage registers its job before it reads the jar. -/
theorem run_stage (position : ℕ) {files cleared : Files} {input : String} {temporary : Bool}
    (placed : Placed tmp a run.files files input temporary)
    (removed : files.removeIfThere (Path.join out a.fileName) = .ok cleared) :
    let tag := run.remapper.inputs.length
    let read := run.remapper.createTag.2.readInputs tag cleared input
    (stage tmp out position a).run run = (read.2.map fun _ => (), {
      files := cleared
      remapper := read.1
      jobs := run.jobs ++ [⟨position, a, tag, input, temporary, Path.join out a.fileName⟩] }) := by
  intro tag read
  let run₁ : Run := { run with remapper := run.remapper.createTag.2 }
  have clears : (changeFiles (fun _ : FileError => .io) fun fs =>
      fs.removeIfThere (Path.join out a.fileName)).run { run₁ with
        files
        jobs := run.jobs ++ [⟨position, a, tag, input, temporary, Path.join out a.fileName⟩] } =
      (.ok (), { run₁ with
        files := cleared
        jobs := run.jobs ++ [⟨position, a, tag, input, temporary, Path.join out a.fileName⟩] }) :=
    run_changeFiles_eq_ok.mpr ⟨cleared, removed, rfl⟩
  have tagged : createTag.run run = (.ok tag, run₁) := rfl
  have taken : (inputOf tmp a).run run₁ = (.ok (input, temporary), { run₁ with files }) :=
    run_inputOf placed
  have reads (run : Run) : (onRemapper (fun m fs => m.readInputs tag fs input) >>= fun _ =>
      (pure () : Batch Unit)).run run = ((run.remapper.readInputs tag run.files input).2.map fun _ => (),
        { run with remapper := (run.remapper.readInputs tag run.files input).1 }) := by
    rw [run_bind, show (onRemapper _).run run = (_, _) from rfl]
    cases (run.remapper.readInputs tag run.files input).2 with
    | error e => rfl
    | ok n => rfl
  unfold stage
  rw [run_bind, tagged]
  dsimp only
  rw [run_bind, taken]
  dsimp only
  rw [run_bind, show (modify _ : Batch Unit).run _ = (.ok (), _) from rfl]
  dsimp only
  rw [run_bind]
  rw [show (changeFiles _ _).run _ = _ from clears]
  exact reads _

/-- A stage for which there is room registers a job, and succeeds if the jar can be read. -/
theorem stage_of_placed (position : ℕ) {files cleared : Files} {input : String} {temporary : Bool}
    (placed : Placed tmp a run.files files input temporary)
    (removed : files.removeIfThere (Path.join out a.fileName) = .ok cleared) :
    ∃ job result mid, (stage tmp out position a).run run = (result, mid) ∧
      Placed tmp a run.files files job.input job.temporary ∧
      files.removeIfThere job.output = .ok mid.files ∧ mid.files = cleared ∧
      mid.jobs = run.jobs ++ [job] ∧ ∀ listed classes hs, Jar.list mid.files job.input = .ok listed →
        Remapper.Registers listed classes hs → result = .ok () := by
  have ran := run_stage position placed removed
  dsimp only at ran
  rcases reads : run.remapper.createTag.2.readInputs run.remapper.inputs.length cleared input with
    ⟨remapper, read⟩
  rw [reads] at ran
  obtain ⟨job, here⟩ : ∃ job : Job, job =
      ⟨position, a, run.remapper.inputs.length, input, temporary, Path.join out a.fileName⟩ := ⟨_, rfl⟩
  rw [← here] at ran
  refine ⟨job, _, _, ran, ?_, ?_, rfl, rfl, fun listed classes hs whole registers => ?_⟩
  · rw [here]
    exact placed
  · rw [here]
    dsimp only
    exact removed
  · have tagged : run.remapper.inputs.length < run.remapper.createTag.2.inputs.length := by
      show _ < (run.remapper.inputs ++ [[]]).length
      rw [List.length_append]
      exact Nat.lt_succ_self _
    rw [here] at whole
    have done := Remapper.readInputs_eq_ok.mpr ⟨listed, classes, hs, whole, registers, tagged, rfl, rfl⟩
    rw [(Prod.mk.inj (reads.symm.trans done)).2]
    rfl

/-- A successful stage, and the job that it registers. -/
theorem stage_eq_ok {position : ℕ}
    (h : (stage tmp out position a).run run = (.ok (), run')) :
    ∃ (job : Job) (files cleared : Files) (listed : List Listed) (classes : List Entry)
      (hs : List ClassHeader), job.artifact = a ∧ job.output = Path.join out a.fileName ∧
      job.tag = run.remapper.inputs.length ∧
      Placed tmp a run.files files job.input job.temporary ∧
      files.removeIfThere job.output = .ok cleared ∧ Jar.list cleared job.input = .ok listed ∧
      Remapper.Registers listed classes hs ∧
      run' = {
        files := cleared
        remapper := { run.remapper with
          hierarchy := run.remapper.hierarchy.add hs
          inputs := run.remapper.inputs ++ [classes] }
        jobs := run.jobs ++ [job] } := by
  obtain ⟨fs, m, jobs⟩ := run
  obtain ⟨tag, run₁, tagged, h⟩ := run_bind_eq_ok.mp h
  obtain ⟨remapper, created, rfl⟩ := run_onRemapper_eq_ok.mp tagged
  obtain ⟨rfl, same⟩ := Prod.mk.inj created
  obtain rfl := Except.ok.inj same
  obtain ⟨⟨input, temporary⟩, run₂, taken, h⟩ := run_bind_eq_ok.mp h
  obtain ⟨files, placed, rfl⟩ := inputOf_eq_ok taken
  dsimp only at placed h
  obtain ⟨_, run₃, registered, h⟩ := run_bind_eq_ok.mp h
  obtain rfl := run_modify_eq_ok.mp registered
  obtain ⟨_, run₄, removed, h⟩ := run_bind_eq_ok.mp h
  obtain ⟨cleared, gone, rfl⟩ := run_changeFiles_eq_ok.mp removed
  dsimp only at gone h
  obtain ⟨n, run₅, reads, h⟩ := run_bind_eq_ok.mp h
  obtain ⟨remapper, read, rfl⟩ := run_onRemapper_eq_ok.mp reads
  obtain ⟨_, rfl⟩ := run_pure_eq_ok.mp h
  dsimp only at read ⊢
  obtain ⟨listed, classes, hs, whole, registers, _, _, rfl⟩ := Remapper.readInputs_eq_ok.mp read
  have tagged : (m.inputs ++ [[]]).modify m.inputs.length (· ++ classes) = m.inputs ++ [classes] :=
    List.modifyTailIdx_add (List.modifyHead (· ++ classes)) 0 m.inputs [[]]
  refine ⟨⟨position, a, m.inputs.length, input, temporary, Path.join out a.fileName⟩, files, cleared,
    listed, classes, hs, ?_⟩
  dsimp only
  rw [← tagged]
  exact ⟨rfl, rfl, rfl, placed, gone, whole, registers, rfl⟩

theorem Placed.input_of_path {fs files : Files} {input path : String} {temporary : Bool}
    (placed : Placed tmp a fs files input temporary) (source : a.source = .path path) :
    input = path := by
  cases placed with
  | path source' => exact ArtifactSource.path.inj (source'.symm.trans source)
  | memory source' _ => exact nomatch source'.symm.trans source

/-- A job that is registered for a mod. -/
structure Follows (out : String) (q : ℕ × Artifact) (job : Job) : Prop where
  position : job.position = q.1
  artifact : job.artifact = q.2
  output : job.output = Path.join out q.2.fileName
  input : ∀ path, q.2.source = .path path → job.input = path

theorem follows_of_stage {q : ℕ × Artifact}
    (h : (stage tmp out q.1 q.2).run run = (.ok (), run')) :
    ∃ job, run'.jobs = run.jobs ++ [job] ∧ Follows out q job := by
  obtain ⟨_, files, cleared, _, _, _, _, output, _, placed, removed, _⟩ := stage_eq_ok h
  rw [output] at removed
  have ran := run_stage q.1 placed removed
  dsimp only at ran
  generalize Remapper.readInputs _ _ _ _ = read at ran
  have registered := congrArg Run.jobs (Prod.mk.inj (h.symm.trans ran)).2
  dsimp only at registered
  refine ⟨_, registered, ?_, ?_, ?_, fun path source => ?_⟩
  · dsimp only
  · dsimp only
  · dsimp only
  · exact placed.input_of_path source

theorem follows_of_stages {todo : List (ℕ × Artifact)}
    (h : (todo.forM fun p => stage tmp out p.1 p.2).run run = (.ok (), run')) :
    ∃ jobs, run'.jobs = run.jobs ++ jobs ∧ List.Forall₂ (Follows out) todo jobs := by
  induction todo generalizing run with
  | nil =>
    obtain ⟨_, rfl⟩ := run_pure_eq_ok.mp h
    exact ⟨[], (List.append_nil _).symm, .nil⟩
  | cons q todo ih =>
    obtain ⟨_, mid, first, rest⟩ := run_bind_eq_ok.mp h
    obtain ⟨job, added, follows⟩ := follows_of_stage first
    obtain ⟨jobs, others, all⟩ := ih rest
    refine ⟨job :: jobs, ?_, .cons follows all⟩
    rw [others, added, List.append_assoc, List.singleton_append]

variable {selected : List (ℕ × Artifact)} {jobs : List Job}

theorem settled_of_all {m : Remapper}
    (h : (selected.forM fun p => stage tmp out p.1 p.2).run { files := start, remapper := m } =
      (.ok (), run')) :
    Run.Grows { files := start, remapper := m } run' ∧ Settled start out selected run' :=
  (Does.forM fun _ member => does_stage start out selected tmp member).of_ok (settled_start start m) h

/-- The jobs of a batch follow its mods one by one. -/
theorem follows_of_all {m : Remapper}
    (h : (selected.forM fun p => stage tmp out p.1 p.2).run { files := start, remapper := m } =
      (.ok (), run')) : List.Forall₂ (Follows out) selected run'.jobs := by
  obtain ⟨jobs, appended, follow⟩ := follows_of_stages h
  rw [List.nil_append] at appended
  exact appended ▸ follow

theorem output_of_follows (follow : List.Forall₂ (Follows out) selected jobs) :
    ∀ job ∈ jobs, ∃ a : Artifact, job.output = Path.join out a.fileName := by
  intro job member
  obtain ⟨q, _, follows⟩ := exists_of_mem_right follow member
  exact ⟨q.2, follows.output⟩

/-- Jobs for mods of different file names have different outputs. -/
theorem nodup_of_follows (follow : List.Forall₂ (Follows out) selected jobs)
    (outputs : (selected.map fun q => Path.join out q.2.fileName).Nodup) :
    (jobs.map Job.output).Nodup := by
  have same : selected.map (fun q => Path.join out q.2.fileName) = jobs.map Job.output := by
    rw [← List.forall₂_eq_eq_eq, List.forall₂_map_left_iff, List.forall₂_map_right_iff]
    exact follow.imp fun _ _ follows => follows.output.symm
  exact same ▸ outputs

theorem Placed.read_of_memory {fs files : Files} {input : String} {temporary : Bool} {c : Content}
    (placed : Placed tmp a fs files input temporary) (source : a.source = .memory c) :
    files.read input = .ok c := by
  cases placed with
  | path source' => exact nomatch source'.symm.trans source
  | memory source' copied =>
    obtain ⟨_, p, c', found, _, _, there, same⟩ := Artifact.copyToTemporary_eq_ok copied
    obtain rfl := same c source
    exact Files.read_eq_ok.mpr ⟨p, found, there⟩

/-- A copy takes no place of a file. -/
theorem Placed.list {fs files : Files} {input path : String} {temporary : Bool}
    (placed : Placed tmp a fs files path temporary) {listed : List Listed}
    (whole : Jar.list fs input = .ok listed) : Jar.list files input = .ok listed := by
  cases placed with
  | path source => exact whole
  | memory source copied =>
    obtain ⟨_, p, _, _, within, free, _⟩ := Artifact.copyToTemporary_eq_ok copied
    obtain ⟨content, read, known⟩ := Jar.list_eq_ok.mp whole
    obtain ⟨q, found, there⟩ := Files.read_eq_ok.mp read
    have found' := within.toKeeps.locate (Files.isPlain_of_file found there) found
    refine Jar.list_eq_ok.mpr ⟨content, within.toKeeps.read read fun q' found'' same => ?_, known⟩
    obtain rfl := Except.ok.inj (found'.symm.trans found'')
    exact free content (same ▸ there)

theorem removeIfThere_keeps {fs fs' : Files} {path : String} (h : fs.removeIfThere path = .ok fs') :
    Files.Keeps (fun p => Files.IsPlain path ∧ fs'.locate path = .ok p) fs fs' := by
  rcases Files.removeIfThere_eq_ok h with rfl | removed
  · exact .refl _ _
  · obtain ⟨plain, p, found, within, _⟩ := Files.remove_eq_ok removed
    exact within.toKeeps.mono fun q here => ⟨plain, here ▸ within.toKeeps.locate plain found⟩

/-- A jar that is on disk before the run is on disk when its mod has been staged. -/
theorem jar_of_settled (settled : Settled start out selected run)
    (since : Files.Keeps (fun _ => True) start run.files)
    (later : Files.Keeps (fun _ => True) run.files final) {path : String} {c : Content}
    (read : start.read path = .ok c)
    (apart : ∀ job ∈ run.jobs, final.Apart path job.output) :
    run.files.read path = .ok c := by
  obtain ⟨p, found, there⟩ := Files.read_eq_ok.mp read
  have plain := Files.isPlain_of_file found there
  have found' := since.locate plain found
  have output : ¬run.AtOutput p := by
    rintro ⟨job, member, plain', located⟩
    exact apart job member p (later.locate plain found') (later.locate plain' located)
  have temporary : ¬run.AtTemporary p := fun here => output (settled.atOutput there here)
  exact Files.read_eq_ok.mpr ⟨p, found', (settled.elsewhere p c output temporary id).mpr there⟩

/-- The jar of a mod once it has been staged, whether it is on disk or has been copied there. -/
theorem jar_of_placed {fs files : Files} {c : Content}
    (settled : Settled start out selected run)
    (placed : Placed tmp a fs files job.input job.temporary)
    (removed : files.removeIfThere job.output = .ok run.files)
    (since : Files.Keeps (fun _ => True) start run.files)
    (later : Files.Keeps (fun _ => True) run.files final) (there : job ∈ run.jobs)
    (apart : Apart final run.jobs) (jar : a.jar start = .ok c) : run.files.read job.input = .ok c := by
  cases source : a.source with
  | path path =>
    rw [Artifact.jar, source] at jar
    obtain rfl := placed.input_of_path source
    exact jar_of_settled settled since later jar (apart job there)
  | memory c' =>
    rw [Artifact.jar, source] at jar
    obtain rfl := Except.ok.inj jar
    have clears := removeIfThere_keeps removed
    refine read_apart (placed.read_of_memory source) clears (clears.forget.trans later)
      fun p output found => ?_
    exact apart job there job there p found (later.locate output.1 output.2)

/-- One stage supplies its own job, and no other job loses its jar. -/
theorem supplied_stage {position : ℕ} (member : (position, a) ∈ selected)
    (settled : Settled start out selected run)
    (since : Files.Keeps (fun _ => True) start run.files)
    (h : (stage tmp out position a).run run = (.ok (), run'))
    (later : Files.Keeps (fun _ => True) run'.files final)
    (apart : Apart final run'.jobs)
    (supplied : ∀ job ∈ run.jobs, Supplied start run job) :
    ∀ job ∈ run'.jobs, Supplied start run' job := by
  obtain ⟨grows, settled'⟩ := (does_stage start out selected tmp member).of_ok settled h
  have since' := since.trans grows.files
  obtain ⟨new, files, cleared, listed, classes, hs, rfl, _, tag, placed, removed, whole, registers,
    rfl⟩ := stage_eq_ok h
  have last : new ∈ run.jobs ++ [new] := List.mem_append_right run.jobs List.mem_cons_self
  have elsewhere {job : Job} (there : job ∈ run.jobs ++ [new]) (p : Place)
      (output : Files.IsPlain new.output ∧ cleared.locate new.output = .ok p) :
      final.locate job.input ≠ .ok p :=
    fun found => apart job there new last p found (later.locate output.1 output.2)
  have clears := removeIfThere_keeps removed
  have later' := clears.forget.trans later
  intro job there
  -- Jobs that were there keep their tags, and the new one has the tag behind them.
  rcases List.mem_append.mp there with before | same
  · obtain ⟨listed', classes', hs', fed, jar⟩ := supplied job before
    refine ⟨listed', classes', hs', ⟨?_, ?_, fed.registers⟩, jar⟩
    · exact list_apart (placed.list fed.whole) clears later' (elsewhere there)
    · obtain ⟨inside, _⟩ := List.getElem?_eq_some_iff.mp fed.tagged
      exact (List.getElem?_append_left inside).trans fed.tagged
  · obtain rfl := List.mem_singleton.mp same
    refine ⟨listed, classes, hs, ⟨whole, ?_, registers⟩, fun c jar => ?_⟩
    · rw [tag]
      exact List.getElem?_concat_length
    · obtain ⟨content, read, known⟩ := Jar.list_eq_ok.mp whole
      have same : cleared.read job.input = .ok c :=
        jar_of_placed settled' placed removed since' later last apart jar
      exact Except.ok.inj (same.symm.trans read) ▸ known

/-- A batch of which some mods have been staged: each job so far has its jar. -/
structure Staging (start : Files) (out : String) (selected : List (ℕ × Artifact)) (run : Run) :
    Prop where
  settled : Settled start out selected run
  since : Files.Keeps (fun _ => True) start run.files
  supplied : ∀ job ∈ run.jobs, Supplied start run job

namespace Staging

variable {todo : List (ℕ × Artifact)} {q : ℕ × Artifact}

theorem fresh (fs : Files) (m : Remapper) : Staging fs out selected { files := fs, remapper := m } :=
  ⟨settled_start fs m, .refl _ _, fun _ there => absurd there List.not_mem_nil⟩

/-- The first mod is staged, and the others after it. -/
theorem cons (staging : Staging start out selected run) (members : ∀ p ∈ q :: todo, p ∈ selected)
    (h : ((q :: todo).forM fun p => stage tmp out p.1 p.2).run run = (.ok (), run'))
    (later : Files.Keeps (fun _ => True) run'.files final) (apart : Apart final run'.jobs) :
    ∃ mid, (stage tmp out q.1 q.2).run run = (.ok (), mid) ∧
      (todo.forM fun p => stage tmp out p.1 p.2).run mid = (.ok (), run') ∧
      run.Grows mid ∧ mid.Grows run' ∧ Staging start out selected mid := by
  obtain ⟨first, others⟩ := List.forall_mem_cons.mp members
  obtain ⟨_, mid, staged, rest⟩ := run_bind_eq_ok.mp h
  obtain ⟨grows, settled⟩ := (does_stage start out selected tmp first).of_ok staging.settled staged
  obtain ⟨grows', _⟩ := (Does.forM fun p member => does_stage start out selected tmp
    (others p member)).of_ok settled rest
  have supplied := supplied_stage first staging.settled staging.since staged
    (grows'.files.trans later) (apart.mono grows'.jobs) staging.supplied
  exact ⟨mid, staged, rest, grows, grows', settled, staging.since.trans grows.files, supplied⟩

theorem stages (staging : Staging start out selected run) (members : ∀ p ∈ todo, p ∈ selected)
    (h : (todo.forM fun p => stage tmp out p.1 p.2).run run = (.ok (), run'))
    (later : Files.Keeps (fun _ => True) run'.files final) (apart : Apart final run'.jobs) :
    Staging start out selected run' := by
  induction todo generalizing run with
  | nil =>
    obtain ⟨_, rfl⟩ := run_pure_eq_ok.mp h
    exact staging
  | cons q todo ih =>
    obtain ⟨mid, _, rest, _, _, staging'⟩ := staging.cons members h later apart
    exact ih staging' (List.forall_mem_cons.mp members).2 rest

end Staging

/-- Once all mods of a batch have been staged, every job has its jar. -/
theorem supplied_of_all {m : Remapper}
    (h : (selected.forM fun p => stage tmp out p.1 p.2).run { files := start, remapper := m } =
      (.ok (), run'))
    (later : Files.Keeps (fun _ => True) run'.files final) (apart : Apart final run'.jobs) :
    ∀ job ∈ run'.jobs, Supplied start run' job :=
  ((Staging.fresh start m).stages (fun _ member => member) h later apart).supplied

end Pipeline

end ModRemap
