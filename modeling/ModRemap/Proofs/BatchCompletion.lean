import Mathlib
import ModRemap.Proofs.BatchProgress

/-! How a batch goes on once every mod has been staged. If all outputs have places and the jar that each
mod becomes can be computed, no production and no completion fails: what one job does leaves all the
others what they need. -/

namespace ModRemap

namespace Jar

/-- A closed jar can be overwritten. -/
theorem overwrite_of_archive {fs : Files} {path : String} {entries : List Entry}
    (closed : fs.read path = .ok (.archive entries))
    (files : ∀ e ∈ entries, isDirectoryName e.name = false)
    (parent : fs.isDirectory (Path.parent path) = true) (replacements : Dict String Bytes) :
    ∃ fs', overwrite fs path replacements = .ok fs' := by
  obtain ⟨p, found, there⟩ := Files.read_eq_ok.mp closed
  have plain := Files.isPlain_of_file found there
  have free := Files.not_mem_directories_of_file there
  have whole : list fs path = .ok (entries.map Entry.listed) := list_eq_ok.mpr ⟨_, closed, rfl⟩
  rw [overwrite_eq, rebuilt]
  by_cases none : replacements.size = 0
  · exact ⟨fs, if_pos none⟩
  · have carried : carry (named replacements).contains (entries.map Entry.listed) =
        .ok (entries.filter fun e => !(named replacements).contains e.name) := carry_listed files
    have replaced := Files.replace_of_free (.archive (repacked entries replacements)) plain found free
    rw [if_neg none, if_pos parent]
    exact ⟨_, except_bind_eq_ok.mpr ⟨_, whole, except_bind_eq_ok.mpr ⟨_, carried,
      file_eq_ok.mpr replaced⟩⟩⟩

end Jar

namespace Pipeline

variable {start made base final : Files} {tmp out : String} {run run' : Run} {job : Job} {jobs : List Job}
  {selected : List (ℕ × Artifact)} {ix : MappingIndex}

/-! ### Productions -/

theorem produce_of_collect {listed : List Listed} {classes entries : List Entry} {hs : List ClassHeader}
    {p : Place} (fed : Fed run job listed classes hs) (plain : Files.IsPlain job.output)
    (done : run.files.makeDirectories (Path.parent job.output) = (made, .ok ()))
    (found : made.locate job.output = .ok p) (free : p ∉ made.directories)
    (apart : ∀ files : Files, files.Apart job.input job.output)
    (collected : collect run.remapper.resolver listed = .ok entries) :
    ∃ jar run', (produce job).run run = (.ok jar, run') := by
  obtain ⟨files, jar, created⟩ := OutputJar.create_of_free done plain found free
  obtain ⟨_, _, _, located, within, _⟩ := OutputJar.create_eq_ok created
  have whole : Jar.list files job.input = .ok listed :=
    list_apart fed.whole within.toKeeps within.toKeeps.forget
      fun q here found' => apart files q found' (here ▸ located)
  obtain ⟨resources, inputs, outs, selects, registered, remapped, _⟩ := collect_eq_ok.mp collected
  obtain rfl := Except.ok.inj (fed.registers.inputs.symm.trans registered)
  have copies : jar.copyResources files job.input =
      (jar.writeAll (resources.map Jar.copied), .ok resources.length) :=
    (OutputJar.copyResources_eq_ok whole).mpr ⟨resources, selects, rfl, rfl⟩
  have applies : run.remapper.apply job.tag (jar.writeAll (resources.map Jar.copied)) =
      ((jar.writeAll (resources.map Jar.copied)).writeAll outs, .ok classes.length) :=
    (Remapper.apply_eq_ok fed.tagged).mpr ⟨⟨outs, remapped, rfl⟩, rfl⟩
  refine ⟨_, _, run_bind_eq_ok.mpr ⟨jar, _, run_onFiles_eq_ok.mpr ⟨files, created, rfl⟩,
    run_bind_eq_ok.mpr ⟨jar.writeAll (resources.map Jar.copied), _, run_askFiles_eq_ok.mpr ⟨?_, rfl⟩,
      run_bind_eq_ok.mpr ⟨(jar.writeAll (resources.map Jar.copied)).writeAll outs, _,
        run_onRemapper_eq_ok.mpr ⟨run.remapper, ?_, rfl⟩, run_modifyGet_eq_ok.mpr rfl⟩⟩⟩⟩
  · dsimp only
    rw [copies]
    rfl
  · dsimp only
    rw [applies]
    rfl

/-- The outputs of these jobs have places once their directory is made, where it was in `base`. -/
def HasPlaces (base made : Files) (jobs : List Job) : Prop :=
  ∀ job ∈ jobs, base.makeDirectories (Path.parent job.output) = (made, .ok ()) ∧
    ∃ p, made.locate job.output = .ok p ∧ p ∉ made.directories

/-- The directory for outputs has not been made yet, but can be, or it is there. -/
structure Opens (base made : Files) (fs : Files) : Prop where
  known : fs.directories = base.directories ∨ fs.directories = made.directories
  clear : ∀ p ∈ made.directories, ∀ c, fs.node? p ≠ some (.file c)

theorem opens_of_directories {fs : Files} (same : fs.directories = made.directories) :
    Opens base made fs := by
  refine ⟨.inr same, fun p inside c there => ?_⟩
  have directory : fs.node? p = some .directory := Files.mem_directories.mp (same ▸ inside)
  exact nomatch there.symm.trans directory

/-- The jar of a job that waits, and what it becomes. -/
def Computable (run : Run) (job : Job) : Prop :=
  ∃ listed classes hs entries, Fed run job listed classes hs ∧
    collect run.remapper.resolver listed = .ok entries

theorem productions_of_places {jobs : List Job} (settled : Settled start out selected run)
    (there : ∀ job ∈ jobs, job ∈ run.jobs) (opens : Opens base made run.files)
    (places : HasPlaces base made jobs) (independent : ∀ files, Independent files out jobs)
    (computable : ∀ job ∈ jobs, Computable run job) :
    ∃ jars run', (jobs.mapM produce).run run = (.ok jars, run') ∧
      (jobs ≠ [] → run'.files.directories = made.directories) := by
  induction jobs generalizing run with
  | nil => exact ⟨[], run, run_mapM_nil_eq_ok.mpr ⟨rfl, rfl⟩, fun some => absurd rfl some⟩
  | cons job jobs ih =>
    obtain ⟨place, places'⟩ := List.forall_mem_cons.mp places
    obtain ⟨listed, classes, hs, entries, fed, collected⟩ := computable job List.mem_cons_self
    have plain : Files.IsPlain job.output := (independent base).plain
    have own (files : Files) : files.Apart job.input job.output := (independent files).own
    obtain ⟨done, p, found, free⟩ := place
    obtain ⟨now, done', same⟩ := Files.makeDirectories_again done opens.known opens.clear
    have found' := (Files.locate_of_directories plain same).mpr found
    obtain ⟨jar, mid, produced⟩ :=
      produce_of_collect fed plain done' found' (same ▸ free) own collected
    obtain ⟨opened, within, remapper, _⟩ :=
      produce_spec produced fed plain (.refl _ mid.files) (own mid.files)
    obtain ⟨grows, ⟨settled', _⟩, _⟩ := (does_produce start out selected job).of_ok
      ⟨settled, there job List.mem_cons_self⟩ produced
    obtain ⟨now', _, done'', same', _⟩ := directories_of_produce plain produced
    obtain ⟨rfl, _⟩ := Prod.mk.inj (done'.symm.trans done'')
    have directories : mid.files.directories = made.directories := same'.trans same
    have resolver : mid.remapper = run.remapper := by rw [remapper]
    -- The other jobs read their jars elsewhere.
    have waiting : ∀ other ∈ jobs, Computable mid other := by
      intro other member
      obtain ⟨listed', classes', hs', entries', fed', collected'⟩ :=
        computable other (List.mem_cons_of_mem job member)
      refine ⟨listed', classes', hs', entries', ?_, resolver ▸ collected'⟩
      exact fed'.persist (within.mono fun _ here => .single plain opened.found here) resolver
        (.refl _ mid.files) ((independent mid.files).first (List.mem_cons_of_mem job member))
    have rest := ih settled'
      (fun other member => grows.jobs other (there other (List.mem_cons_of_mem job member)))
      (opens_of_directories directories) places' (fun files => (independent files).tail) waiting
    obtain ⟨jars, run', others, last⟩ := rest
    refine ⟨jar :: jars, run', run_mapM_cons_eq_ok.mpr ⟨jar, mid, jars, produced, others, rfl⟩,
      fun _ => ?_⟩
    by_cases none : jobs = []
    · subst none
      obtain ⟨_, rfl⟩ := run_mapM_nil_eq_ok.mp others
      exact directories
    · exact last none

/-! ### Completions -/

/-- The jar of a job is there, and it can be computed what it becomes. -/
def Becomes (ix : MappingIndex) (r : Resolver) (run : Run) (job : Job) : Prop :=
  ∃ listed entries, Jar.list run.files job.input = .ok listed ∧
    output ix r job.artifact.metadata listed = .ok entries

variable {r : Resolver} {jar : OutputJar} {wide : Option (String × Bytes)}

theorem Becomes.persist (h : Becomes ix r run job)
    (within : Files.Within (Places run'.files jobs) run.files run'.files)
    (apart : ∀ k ∈ jobs, run'.files.Apart job.input k.output) : Becomes ix r run' job := by
  obtain ⟨listed, entries, whole, made⟩ := h
  have still : Jar.list run'.files job.input = .ok listed :=
    list_apart whole within.toKeeps within.toKeeps.forget
      fun p here => here.apart (.refl _ run'.files) apart
  exact ⟨listed, entries, still, made⟩

theorem Becomes.widener (h : Becomes ix r run job) :
    ∃ wide, (widener ix job).run run = (.ok wide, run) := by
  obtain ⟨listed, entries, whole, made⟩ := h
  obtain ⟨_, wide, _, _, answer, _⟩ := output_eq_ok.mp made
  exact ⟨wide, (run_widener whole).trans (Prod.ext answer rfl)⟩

theorem run_mapM_of_each {α β : Type} {f : α → Batch β} {as : List α}
    (each : ∀ a ∈ as, ∃ b, (f a).run run = (.ok b, run)) :
    ∃ bs, (as.mapM f).run run = (.ok bs, run) := by
  induction as with
  | nil => exact ⟨[], run_mapM_nil_eq_ok.mpr ⟨rfl, rfl⟩⟩
  | cons a as ih =>
    obtain ⟨⟨b, first⟩, others⟩ := List.forall_mem_cons.mp each
    obtain ⟨bs, rest⟩ := ih others
    exact ⟨b :: bs, run_mapM_cons_eq_ok.mpr ⟨b, run, bs, first, rest, rfl⟩⟩

theorem complete_of_ready (ready : Ready ix r run job jar wide) (becomes : Becomes ix r run job)
    (parent : run.files.isDirectory (Path.parent job.output) = true)
    (apart : ∀ files : Files, files.Apart job.input job.output) :
    ∃ run', (complete ix job jar wide).run run = (.ok (), run') ∧
      Files.Keeps (fun _ => True) run.files run'.files := by
  obtain ⟨closes, located, closed, listed, whole, still, collected⟩ :=
    ready.toHolds.close (.refl _ run.files) (apart run.files)
  obtain ⟨listed', entries, whole', made⟩ := becomes
  obtain rfl := Except.ok.inj (whole.symm.trans whole')
  obtain ⟨_, _, refmaps, _, _, rewritten, _⟩ := output_eq_ok.mp made
  have parent' : (jar.close run.files).isDirectory (Path.parent job.output) = true := by
    refine Files.isDirectory_mono ?_ parent
    exact (Files.directories_updateOpen run.files jar.file _).ge
  obtain ⟨files, overwritten⟩ := Jar.overwrite_of_archive closed (not_directory_of_collect collected)
    parent' (Dict.ofList (refmaps.filterMap id ++ wide.toList))
  have within := closes.trans (Jar.overwrite_within located overwritten)
  exact ⟨_, (complete_eq_ok still).mpr ⟨refmaps, files, rewritten, overwritten, rfl⟩,
    within.toKeeps.forget⟩

theorem completions_of_ready {ps : List (OutputJar × Option (String × Bytes))}
    (ready : List.Forall₂ (fun job p => Ready ix r run job p.1 p.2) jobs ps)
    (becomes : ∀ job ∈ jobs, Becomes ix r run job)
    (parents : ∀ job ∈ jobs, run.files.isDirectory (Path.parent job.output) = true)
    (independent : ∀ files, Independent files out jobs) :
    ∃ run', ((jobs.zip ps).forM fun t => complete ix t.1 t.2.1 t.2.2).run run = (.ok (), run') := by
  induction jobs generalizing run ps with
  | nil => exact ⟨run, rfl⟩
  | cons job jobs ih =>
    obtain _ | @⟨_, p, _, ps, first, others⟩ := ready
    obtain ⟨own, becomes'⟩ := List.forall_mem_cons.mp becomes
    obtain ⟨parent, parents'⟩ := List.forall_mem_cons.mp parents
    have alone (files : Files) : files.Apart job.input job.output := (independent files).own
    obtain ⟨mid, completed, keeps⟩ := complete_of_ready first own parent alone
    obtain ⟨_, within, _⟩ := complete_spec first completed keeps (alone mid.files)
    have waiting := waiting_of_complete first others within (.refl _ mid.files)
      (independent mid.files)
    have located := keeps.locate first.plain first.found
    have rest := ih waiting (fun other member => ?_) (fun other member => ?_)
      fun files => (independent files).tail
    · obtain ⟨run', others'⟩ := rest
      exact ⟨run', run_bind_eq_ok.mpr ⟨(), mid, completed, others'⟩⟩
    · exact (becomes' other member).persist
        (within.mono fun _ here => .single first.plain located here)
        ((independent mid.files).first (List.mem_cons_of_mem job member))
    · exact Files.isDirectory_mono keeps.directories (parents' other member)

/-! ### All phases -/

theorem HasRoom.opens {fs : Files} (left : HasRoom start base made tmp fs [])
    (same : fs.directories = base.directories) : Opens base made fs :=
  ⟨.inl same, left.clear⟩

/-- A batch goes through if it has room, if all of its jars can be read, and if it can be computed what
they become. -/
theorem phases_of_room {m : Remapper} (room : Room start base made tmp out (selected.map Prod.snd))
    (outputs : (selected.map fun q => Path.join out q.2.fileName).Nodup)
    (readable : ∀ q ∈ selected, Readable start q.2)
    (apart : ∀ files, Apart files ((selected.forM fun p => stage tmp out p.1 p.2).run
      { files := start, remapper := m }).2.jobs)
    (computable : ∀ staged, (selected.forM fun p => stage tmp out p.1 p.2).run
      { files := start, remapper := m } = (.ok (), staged) → ∀ q ∈ selected, ∀ c listed,
        q.2.jar start = .ok c → c.list = .ok listed →
          ∃ entries, output ix staged.remapper.resolver q.2.metadata listed = .ok entries) :
    ∃ last, (phases ix tmp out selected).run { files := start, remapper := m } = (.ok (), last) := by
  obtain ⟨staged, stages, left⟩ := stages_of_hasRoom room (fun _ member => member)
    (settled_start start m) (.refl _ _) room.hasRoom readable apart
  rw [stages] at apart
  obtain ⟨_, settled⟩ := settled_of_all stages
  have supplied := supplied_of_all stages (.refl _ staged.files) (apart staged.files)
  have follow := follows_of_all stages
  have independent : ∀ files, Independent files out staged.jobs :=
    fun files => .of_follows follow outputs (apart files)
  have directories : staged.files.directories = base.directories := by
    rw [directories_of_stages stages, room.still]
  have places : HasPlaces base made staged.jobs := by
    intro job member
    obtain ⟨q, selects, follows⟩ := exists_of_mem_right follow member
    rw [follows.output]
    exact room.outputs q.2 (List.mem_map_of_mem selects)
  have each : ∀ job ∈ staged.jobs, ∃ listed classes hs entries, Fed staged job listed classes hs ∧
      output ix staged.remapper.resolver job.artifact.metadata listed = .ok entries := by
    intro job member
    obtain ⟨q, selects, follows⟩ := exists_of_mem_right follow member
    obtain ⟨listed, classes, hs, fed, jar⟩ := supplied job member
    obtain ⟨c, _, _, _, own, _, _⟩ := readable q selects
    rw [follows.artifact] at jar ⊢
    obtain ⟨entries, made⟩ := computable staged stages q selects c listed own (jar c own)
    exact ⟨listed, classes, hs, entries, fed, made⟩
  have collects : ∀ job ∈ staged.jobs, Computable staged job := by
    intro job member
    obtain ⟨listed, classes, hs, entries, fed, made⟩ := each job member
    obtain ⟨gathered, _, _, collected, _⟩ := output_eq_ok.mp made
    exact ⟨listed, classes, hs, gathered, fed, collected⟩
  obtain ⟨jars, written, produces, last⟩ := productions_of_places settled (fun _ there => there)
    (left.opens directories) places independent collects
  obtain ⟨holds, _, within⟩ := productions_spec settled (fun _ there => there) produces
    (fun job member => by
      obtain ⟨listed, classes, hs, _, fed, _⟩ := each job member
      exact ⟨listed, classes, hs, fed⟩) (.refl _ written.files) (independent written.files)
  have becomes : ∀ job ∈ staged.jobs, Becomes ix staged.remapper.resolver written job := by
    intro job member
    obtain ⟨listed, classes, hs, entries, fed, made⟩ := each job member
    exact Becomes.persist ⟨listed, entries, fed.whole, made⟩ within (apart written.files job member)
  obtain ⟨wideners, asks⟩ := run_mapM_of_each (f := widener ix) fun job member =>
    (becomes job member).widener
  obtain ⟨_, ready⟩ := ready_of_wideners holds asks written.remapper.finish
  obtain ⟨final, completes⟩ := completions_of_ready ready becomes (fun job member => by
      obtain ⟨done, _⟩ := places job member
      refine Files.isDirectory_mono ?_ (Files.makeDirectories_eq_ok done).1
      exact (last (List.ne_nil_of_mem member)).ge) independent
  refine ⟨final, run_bind_eq_ok.mpr ⟨(), staged, stages, run_bind_eq_ok.mpr ⟨staged, staged,
    run_get_eq_ok.mpr ⟨rfl, rfl⟩, run_bind_eq_ok.mpr ⟨jars, written, produces, run_bind_eq_ok.mpr
      ⟨wideners, written, asks, run_bind_eq_ok.mpr ⟨(), _, run_modify_eq_ok.mpr rfl, completes⟩⟩⟩⟩⟩⟩

end Pipeline

end ModRemap
