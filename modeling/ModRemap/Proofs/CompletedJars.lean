import Mathlib
import ModRemap.Proofs.StagedJobs

/-! The outputs of a run that succeeds. Each job writes at its own place, so what one job has finished
stays while the next ones are dealt with. -/

namespace ModRemap.Pipeline

variable {final : Files} {out : String} {run run' : Run} {job : Job} {jar : OutputJar}

/-- The jar of a job is being written: its file holds what has been collected, and is still open. -/
structure Opened (run : Run) (job : Job) (jar : OutputJar) : Prop where
  plain : Files.IsPlain job.output
  found : run.files.locate job.output = .ok jar.file.place
  there : run.files.node? jar.file.place = some (.file (.begun jar.entries))
  turn : run.files.turn jar.file.place = jar.file.turn
  flushed : jar.flushed = jar.entries

theorem Opened.persist (h : Opened run job jar) {P : Place → Prop}
    (within : Files.Within P run.files run'.files) (outside : ¬P jar.file.place) :
    Opened run' job jar where
  plain := h.plain
  found := within.toKeeps.locate h.plain h.found
  there := (within.elsewhere _ _ outside).mpr h.there
  turn := (within.turns _ outside).trans h.turn
  flushed := h.flushed

theorem produce_eq_ok (h : (produce job).run run = (.ok jar, run')) :
    ∃ files jar₀ jar₁ jar₂ copied applied,
      OutputJar.create run.files job.output = (files, .ok jar₀) ∧
      jar₀.copyResources files job.input = (jar₁, .ok copied) ∧
      run.remapper.apply job.tag jar₁ = (jar₂, .ok applied) ∧
      jar = { jar₂ with flushed := jar₂.entries } ∧
      run' = { run with
        files := files.updateOpen jar₂.file (Content.extend jar₂.flushed jar₂.entries) } := by
  obtain ⟨fs, m, jobs⟩ := run
  obtain ⟨jar₀, run₁, creates, h⟩ := run_bind_eq_ok.mp h
  obtain ⟨files, created, rfl⟩ := run_onFiles_eq_ok.mp creates
  dsimp only at created h
  obtain ⟨jar₁, run₂, copies, h⟩ := run_bind_eq_ok.mp h
  obtain ⟨copying, rfl⟩ := run_askFiles_eq_ok.mp copies
  obtain ⟨jar₂, run₃, applies, h⟩ := run_bind_eq_ok.mp h
  obtain ⟨remapper, applying, rfl⟩ := run_onRemapper_eq_ok.mp applies
  dsimp only at copying applying h
  have flushed := run_modifyGet_eq_ok.mp h
  rcases copied : jar₀.copyResources files job.input with ⟨jar₁', e | copied'⟩
  · rw [copied] at copying
    exact nomatch copying
  · rw [copied] at copying
    obtain rfl : jar₁' = jar₁ := Except.ok.inj copying
    rcases applied : m.apply job.tag jar₁' with ⟨jar₂', e | applied'⟩
    · rw [applied] at applying
      exact nomatch (Prod.mk.inj applying).2
    · rw [applied] at applying
      obtain ⟨rfl, same⟩ := Prod.mk.inj applying
      obtain rfl : jar₂' = jar₂ := Except.ok.inj same
      obtain ⟨rfl, rfl⟩ := Prod.mk.inj flushed
      exact ⟨files, jar₀, jar₁', jar₂', copied', applied', created, copied, applied, rfl, rfl⟩

/-- The jar of a job holds its resources, then its classes. -/
theorem produce_spec {listed : List Listed} {classes : List Entry} {hs : List ClassHeader}
    (h : (produce job).run run = (.ok jar, run')) (fed : Fed run job listed classes hs)
    (plain : Files.IsPlain job.output) (later : Files.Keeps (fun _ => True) run'.files final)
    (apart : final.Apart job.input job.output) :
    Opened run' job jar ∧ Files.Within (· = jar.file.place) run.files run'.files ∧
      run' = { run with files := run'.files } ∧
      collect run.remapper.resolver listed = .ok jar.entries := by
  obtain ⟨files, jar₀, jar₁, jar₂, copied, applied, created, copying, applying, rfl, rfl⟩ :=
    produce_eq_ok h
  obtain ⟨_, empty, unflushed, located, within, there, turn⟩ := OutputJar.create_eq_ok created
  have updates := files.updateOpen_within jar₂.file (Content.extend jar₂.flushed jar₂.entries)
  have later' := updates.toKeeps.forget.trans later
  have whole : Jar.list files job.input = .ok listed :=
    list_apart fed.whole within.toKeeps (within.toKeeps.forget.trans later')
      fun p here found => apart p found (later'.locate plain (here ▸ located))
  obtain ⟨found, resources, rfl, _⟩ := (OutputJar.copyResources_eq_ok whole).mp copying
  obtain ⟨⟨outs, remapped, rfl⟩, _⟩ := (Remapper.apply_eq_ok fed.tagged).mp applying
  -- Only the list of entries has changed since the jar was created.
  have written : (jar₀.writeAll (found.map Jar.copied)).writeAll outs =
      { jar₀ with entries := OutputJar.merged (found.map Jar.copied ++ outs) } := by
    rw [← OutputJar.writeAll_of_empty empty, OutputJar.writeAll, OutputJar.writeAll,
      OutputJar.writeAll, List.foldl_append]
  have collected := collect_eq_ok.mpr
    ⟨found, classes, outs, resources, fed.registers.inputs, remapped, rfl⟩
  rw [written] at updates later ⊢
  dsimp only at updates later ⊢
  obtain ⟨there', turn'⟩ := Files.updateOpen_eq there turn
    (Content.extend jar₀.flushed (OutputJar.merged (found.map Jar.copied ++ outs)))
  have extended : Content.extend jar₀.flushed (OutputJar.merged (found.map Jar.copied ++ outs))
      (.begun []) = .begun (OutputJar.merged (found.map Jar.copied ++ outs)) := by
    rw [Content.extend, unflushed, if_pos rfl]
  rw [extended] at there'
  exact ⟨⟨plain, updates.toKeeps.locate plain located, there', turn', rfl⟩,
    within.trans updates, rfl, collected⟩

/-- The jar of a job is being written, and holds what is collected from its input. -/
structure Holds (r : Resolver) (run : Run) (job : Job) (jar : OutputJar) : Prop
    extends Opened run job jar where
  collected : ∃ listed, Jar.list run.files job.input = .ok listed ∧
    collect r listed = .ok jar.entries

variable {start : Files} {selected : List (ℕ × Artifact)} {r : Resolver} {jobs : List Job}

/-- The outputs of some jobs are at these places. -/
def Places (fs : Files) (jobs : List Job) (p : Place) : Prop :=
  ∃ job ∈ jobs, Files.IsPlain job.output ∧ fs.locate job.output = .ok p

theorem Places.mono {fs fs' : Files} {p : Place} {jobs' : List Job} (h : Places fs jobs p)
    (keeps : Files.Keeps (fun _ => True) fs fs') (more : ∀ job ∈ jobs, job ∈ jobs') :
    Places fs' jobs' p := by
  obtain ⟨job, member, plain, found⟩ := h
  exact ⟨job, more job member, plain, keeps.locate plain found⟩

theorem Places.single {fs : Files} {p q : Place} (plain : Files.IsPlain job.output)
    (found : fs.locate job.output = .ok p) (here : q = p) : Places fs [job] q :=
  ⟨job, List.mem_cons_self, plain, here ▸ found⟩

/-- One job changes its place, and others then change theirs. -/
theorem Places.cons {fs fs₁ fs₂ : Files} {p : Place} (plain : Files.IsPlain job.output)
    (found : fs₁.locate job.output = .ok p) (first : Files.Within (· = p) fs fs₁)
    (rest : Files.Within (Places fs₂ jobs) fs₁ fs₂) :
    Files.Within (Places fs₂ (job :: jobs)) fs fs₂ := by
  refine (first.mono fun q here => ?_).trans (rest.mono fun q places => ?_)
  · exact ⟨job, List.mem_cons_self, plain, rest.toKeeps.locate plain (here ▸ found)⟩
  · exact places.mono (.refl _ _) fun other member => List.mem_cons_of_mem job member

/-- An input is at none of these places. -/
theorem Places.apart {fs : Files} {p : Place} {input : String} (h : Places fs jobs p)
    (later : Files.Keeps (fun _ => True) fs final)
    (apart : ∀ k ∈ jobs, final.Apart input k.output) :
    final.locate input ≠ .ok p := by
  obtain ⟨job, member, plain, found⟩ := h
  exact fun found' => apart job member p found' (later.locate plain found)

/-- Jobs that keep out of each other's way: their outputs have different names in one directory, and no
output is where an input is. -/
structure Independent (fs : Files) (out : String) (jobs : List Job) : Prop where
  named : ∀ job ∈ jobs, ∃ a : Artifact, job.output = Path.join out a.fileName
  distinct : (jobs.map Job.output).Nodup
  apart : Apart fs jobs

namespace Independent

variable {fs fs' : Files}

theorem of_follows (follow : List.Forall₂ (Follows out) selected jobs)
    (outputs : (selected.map fun q => Path.join out q.2.fileName).Nodup) (apart : Apart fs jobs) :
    Independent fs out jobs :=
  ⟨output_of_follows follow, nodup_of_follows follow outputs, apart⟩

theorem plain (h : Independent fs out (job :: jobs)) : Files.IsPlain job.output := by
  obtain ⟨a, output⟩ := h.named job List.mem_cons_self
  exact output ▸ isPlain_output out a

theorem tail (h : Independent fs out (job :: jobs)) : Independent fs out jobs where
  named other member := h.named other (List.mem_cons_of_mem job member)
  distinct := (List.nodup_cons.mp h.distinct).2
  apart := h.apart.mono fun _ member => List.mem_cons_of_mem job member

theorem own (h : Independent fs out (job :: jobs)) : fs.Apart job.input job.output :=
  h.apart job List.mem_cons_self job List.mem_cons_self

/-- No input is where the first output is. -/
theorem first (h : Independent fs out (job :: jobs)) {other : Job} (member : other ∈ job :: jobs) :
    ∀ k ∈ [job], fs.Apart other.input k.output :=
  fun k single => h.apart other member k (List.mem_singleton.mp single ▸ List.mem_cons_self)

/-- The first input is where no other output is. -/
theorem others (h : Independent fs out (job :: jobs)) : ∀ k ∈ jobs, fs.Apart job.input k.output :=
  fun k member => h.apart job List.mem_cons_self k (List.mem_cons_of_mem job member)

/-- Different outputs of one directory are at different places. -/
theorem not_places (h : Independent fs out (job :: jobs)) {p : Place}
    (found : fs'.locate job.output = .ok p) : ¬Places fs' jobs p := by
  rintro ⟨other, member, _, found'⟩
  obtain ⟨a, output⟩ := h.named job List.mem_cons_self
  obtain ⟨a', output'⟩ := h.named other (List.mem_cons_of_mem job member)
  rw [output] at found
  rw [output'] at found'
  refine (List.nodup_cons.mp h.distinct).1 (List.mem_map.mpr ⟨other, member, ?_⟩)
  rw [output, output', output_unique found' found]

end Independent

theorem Holds.persist (h : Holds r run job jar)
    (within : Files.Within (Places run'.files jobs) run.files run'.files)
    (outside : ¬Places run'.files jobs jar.file.place)
    (later : Files.Keeps (fun _ => True) run'.files final)
    (apart : ∀ k ∈ jobs, final.Apart job.input k.output) :
    Holds r run' job jar := by
  obtain ⟨listed, whole, collected⟩ := h.collected
  refine ⟨h.toOpened.persist within outside, listed, ?_, collected⟩
  exact list_apart whole within.toKeeps (within.toKeeps.forget.trans later)
    fun p here => here.apart later apart

/-- The jar of a job stays while other files are written. -/
theorem Fed.persist {listed : List Listed} {classes : List Entry} {hs : List ClassHeader}
    (fed : Fed run job listed classes hs)
    (within : Files.Within (Places run'.files jobs) run.files run'.files)
    (same : run'.remapper = run.remapper)
    (later : Files.Keeps (fun _ => True) run'.files final)
    (apart : ∀ k ∈ jobs, final.Apart job.input k.output) : Fed run' job listed classes hs where
  whole := list_apart fed.whole within.toKeeps (within.toKeeps.forget.trans later)
    fun _ here => here.apart later apart
  tagged := same ▸ fed.tagged
  registers := fed.registers

theorem productions_spec {jars : List OutputJar} (settled : Settled start out selected run)
    (there : ∀ job ∈ jobs, job ∈ run.jobs) (h : (jobs.mapM produce).run run = (.ok jars, run'))
    (fed : ∀ job ∈ jobs, ∃ listed classes hs, Fed run job listed classes hs)
    (later : Files.Keeps (fun _ => True) run'.files final)
    (independent : Independent final out jobs) :
    List.Forall₂ (Holds run.remapper.resolver run') jobs jars ∧
      run' = { run with files := run'.files } ∧
      Files.Within (Places run'.files jobs) run.files run'.files := by
  induction jobs generalizing run jars with
  | nil =>
    obtain ⟨rfl, rfl⟩ := run_mapM_nil_eq_ok.mp h
    exact ⟨.nil, rfl, .refl _ _⟩
  | cons job jobs ih =>
    obtain ⟨jar, mid, jars', first, rest, rfl⟩ := run_mapM_cons_eq_ok.mp h
    obtain ⟨grows, ⟨settled', _⟩, _⟩ := (does_produce start out selected job).of_ok
      ⟨settled, there job List.mem_cons_self⟩ first
    have there' (other : Job) (member : other ∈ jobs) : other ∈ mid.jobs :=
      grows.jobs other (there other (List.mem_cons_of_mem job member))
    obtain ⟨grows', _⟩ := (does_productions start out selected jobs).of_ok ⟨settled', there'⟩ rest
    obtain ⟨listed, classes, hs, fed₁⟩ := fed job List.mem_cons_self
    have later' := grows'.files.trans later
    obtain ⟨opened, within, same, collected⟩ :=
      produce_spec first fed₁ independent.plain later' independent.own
    -- No input is where this output is, so the jars of all jobs are as they were.
    have remapper : mid.remapper = run.remapper := by rw [same]
    have still {other : Job} (member : other ∈ job :: jobs) {listed : List Listed}
        {classes : List Entry} {hs : List ClassHeader} (fed : Fed run other listed classes hs) :
        Fed mid other listed classes hs :=
      fed.persist (within.mono fun _ here => .single independent.plain opened.found here) remapper later'
        (independent.first member)
    have fed' : ∀ other ∈ jobs, ∃ listed classes hs, Fed mid other listed classes hs := by
      intro other member
      obtain ⟨listed, classes, hs, fed₂⟩ := fed other (List.mem_cons_of_mem job member)
      exact ⟨listed, classes, hs, still (List.mem_cons_of_mem job member) fed₂⟩
    obtain ⟨others, same', within'⟩ := ih settled' there' rest fed' independent.tail
    have holds : Holds run.remapper.resolver mid job jar :=
      ⟨opened, listed, (still List.mem_cons_self fed₁).whole, collected⟩
    have located := within'.toKeeps.locate independent.plain opened.found
    refine ⟨.cons ?_ (remapper ▸ others), ?_,
      Places.cons independent.plain opened.found within within'⟩
    · exact holds.persist within' (independent.not_places located) later independent.others
    · rw [same', same]

theorem complete_eq_ok {ix : MappingIndex} {wide : Option (String × Bytes)} {listed : List Listed}
    (whole : Jar.list (jar.close run.files) job.input = .ok listed) :
    (complete ix job jar wide).run run = (.ok (), run') ↔ ∃ refmaps files,
      refmapsIn ix job.artifact.metadata listed = .ok refmaps ∧
      Jar.overwrite (jar.close run.files) job.output
        (Dict.ofList (refmaps.filterMap id ++ wide.toList)) = .ok files ∧
      run' = { run with files } := by
  let closed : Run := { run with files := jar.close run.files }
  have still : Jar.list closed.files job.input = .ok listed := whole
  have declares : ((weaveConfigs job.artifact.metadata).mapM (declaredRefmap job)).run closed =
      ((weaveConfigs job.artifact.metadata).mapM (declaredRefmapIn listed), closed) :=
    run_mapM fun config _ => run_declaredRefmap still config
  have remaps (paths : List String) : (paths.mapM (remapRefmap ix job)).run closed =
      (paths.mapM (refmapIn ix listed), closed) :=
    run_mapM fun path _ => run_remapRefmap still path
  constructor
  · intro h
    obtain ⟨_, mid, modified, h⟩ := run_bind_eq_ok.mp h
    obtain rfl : mid = closed := run_modify_eq_ok.mp modified
    obtain ⟨declared, mid, asked, h⟩ := run_bind_eq_ok.mp h
    obtain ⟨named, rfl⟩ := Prod.mk.inj (declares.symm.trans asked)
    obtain ⟨refmaps, mid, made, h⟩ := run_bind_eq_ok.mp h
    obtain ⟨rewritten, rfl⟩ := Prod.mk.inj ((remaps _).symm.trans made)
    obtain ⟨files, overwritten, rfl⟩ := run_changeFiles_eq_ok.mp h
    exact ⟨refmaps, files, except_bind_eq_ok.mpr ⟨declared, named, rewritten⟩, overwritten, rfl⟩
  · rintro ⟨refmaps, files, made, overwritten, rfl⟩
    obtain ⟨declared, named, rewritten⟩ := except_bind_eq_ok.mp made
    refine run_bind_eq_ok.mpr ⟨(), closed, rfl, run_bind_eq_ok.mpr
      ⟨declared, closed, declares.trans (Prod.ext named rfl), run_bind_eq_ok.mpr
        ⟨refmaps, closed, (remaps _).trans (Prod.ext rewritten rfl), ?_⟩⟩⟩
    exact run_changeFiles_eq_ok.mpr ⟨files, overwritten, rfl⟩

/-- The jar of a job is being written, and its access widener has been dealt with. -/
structure Ready (ix : MappingIndex) (r : Resolver) (run : Run) (job : Job) (jar : OutputJar)
    (wide : Option (String × Bytes)) : Prop extends Holds r run job jar where
  answer : ∀ listed, Jar.list run.files job.input = .ok listed →
    widenerIn ix job.artifact.metadata listed = .ok wide

/-- The output of a job is finished. -/
def Completed (ix : MappingIndex) (r : Resolver) (run : Run) (job : Job) : Prop :=
  ∃ listed entries, Jar.list run.files job.input = .ok listed ∧
    output ix r job.artifact.metadata listed = .ok entries ∧
    run.files.read job.output = .ok (.archive entries)

/-- The jar of a job once it is closed, while the one it is made from stays. -/
theorem Holds.close (holds : Holds r run job jar)
    (later : Files.Keeps (fun _ => True) run.files final)
    (apart : final.Apart job.input job.output) :
    Files.Within (· = jar.file.place) run.files (jar.close run.files) ∧
      (jar.close run.files).locate job.output = .ok jar.file.place ∧
      (jar.close run.files).read job.output = .ok (.archive jar.entries) ∧
      ∃ listed, Jar.list run.files job.input = .ok listed ∧
        Jar.list (jar.close run.files) job.input = .ok listed ∧ collect r listed = .ok jar.entries := by
  obtain ⟨listed, whole, collected⟩ := holds.collected
  have closes : Files.Within (· = jar.file.place) run.files (jar.close run.files) :=
    run.files.updateOpen_within jar.file (Content.close jar.flushed jar.entries)
  have located := closes.toKeeps.locate holds.plain holds.found
  obtain ⟨there, _⟩ := Files.updateOpen_eq holds.there holds.turn
    (Content.close jar.flushed jar.entries)
  have shut : Content.close jar.flushed jar.entries (.begun jar.entries) = .archive jar.entries := by
    rw [holds.flushed, Content.close, if_pos rfl]
  rw [shut] at there
  refine ⟨closes, located, Files.read_eq_ok.mpr ⟨_, located, there⟩, listed, whole, ?_, collected⟩
  exact list_apart whole closes.toKeeps later
    fun p here found => apart p found (later.locate holds.plain (here ▸ holds.found))

theorem complete_spec {ix : MappingIndex} {wide : Option (String × Bytes)}
    (ready : Ready ix r run job jar wide) (h : (complete ix job jar wide).run run = (.ok (), run'))
    (later : Files.Keeps (fun _ => True) run.files final)
    (apart : final.Apart job.input job.output) :
    Completed ix r run' job ∧ Files.Within (· = jar.file.place) run.files run'.files ∧
      run' = { run with files := run'.files } := by
  obtain ⟨closes, located, closed, listed, whole, still, collected⟩ := ready.toHolds.close later apart
  obtain ⟨refmaps, files, rewritten, overwritten, rfl⟩ := (complete_eq_ok still).mp h
  have within := closes.trans (Jar.overwrite_within located overwritten)
  have made := output_eq_ok.mpr
    ⟨jar.entries, wide, refmaps, collected, ready.answer listed whole, rewritten, rfl⟩
  have kept : Jar.list files job.input = .ok listed :=
    list_apart whole within.toKeeps later
      fun p here found => apart p found (later.locate ready.plain (here ▸ ready.found))
  refine ⟨⟨listed, _, kept, made, ?_⟩, within, rfl⟩
  exact Jar.overwrite_archive closed (not_directory_of_collect collected) overwritten

theorem Ready.persist {ix : MappingIndex} {wide : Option (String × Bytes)}
    (ready : Ready ix r run job jar wide)
    (within : Files.Within (Places run'.files jobs) run.files run'.files)
    (outside : ¬Places run'.files jobs jar.file.place)
    (later : Files.Keeps (fun _ => True) run'.files final)
    (apart : ∀ k ∈ jobs, final.Apart job.input k.output) :
    Ready ix r run' job jar wide := by
  refine ⟨ready.toHolds.persist within outside later apart, fun listed whole' => ?_⟩
  obtain ⟨listed', whole, _⟩ := ready.collected
  have still := list_apart whole within.toKeeps
    (within.toKeeps.forget.trans later) fun p here => here.apart later apart
  obtain rfl := Except.ok.inj (still.symm.trans whole')
  exact ready.answer listed' whole

theorem Completed.persist {ix : MappingIndex} (h : Completed ix r run job)
    (within : Files.Within (Places run'.files jobs) run.files run'.files)
    (outside : ∀ p, run'.files.locate job.output = .ok p → ¬Places run'.files jobs p)
    (later : Files.Keeps (fun _ => True) run'.files final)
    (apart : ∀ k ∈ jobs, final.Apart job.input k.output) :
    Completed ix r run' job := by
  obtain ⟨listed, entries, whole, made, read⟩ := h
  refine ⟨listed, entries, list_apart whole within.toKeeps
    (within.toKeeps.forget.trans later) fun p here => here.apart later apart, made, ?_⟩
  exact within.toKeeps.read read outside

/-- The jars that wait are at other places than the one that is completed. -/
theorem waiting_of_complete {ix : MappingIndex} {p : OutputJar × Option (String × Bytes)}
    {ps : List (OutputJar × Option (String × Bytes))} (first : Ready ix r run job p.1 p.2)
    (others : List.Forall₂ (fun job p => Ready ix r run job p.1 p.2) jobs ps)
    (within : Files.Within (· = p.1.file.place) run.files run'.files)
    (later : Files.Keeps (fun _ => True) run'.files final)
    (independent : Independent final out (job :: jobs)) :
    List.Forall₂ (fun job p => Ready ix r run' job p.1 p.2) jobs ps := by
  have keeps := within.toKeeps.forget
  have located := keeps.locate first.plain first.found
  refine List.forall₂_iff_zip.mpr ⟨others.length_eq, fun {other p'} member => ?_⟩
  have ready := List.forall₂_zip others member
  have inside := (List.of_mem_zip member).1
  refine ready.persist (within.mono fun _ here => .single first.plain located here) ?_ later
    (independent.first (List.mem_cons_of_mem job inside))
  rintro ⟨k, single, _, found⟩
  obtain rfl := List.mem_singleton.mp single
  exact independent.not_places found ⟨other, inside, ready.plain, keeps.locate ready.plain ready.found⟩

theorem completions_spec {ix : MappingIndex} {ps : List (OutputJar × Option (String × Bytes))}
    (settled : Settled start out selected run) (there : ∀ job ∈ jobs, job ∈ run.jobs)
    (ready : List.Forall₂ (fun job p => Ready ix r run job p.1 p.2) jobs ps)
    (h : ((jobs.zip ps).forM fun t => complete ix t.1 t.2.1 t.2.2).run run = (.ok (), run'))
    (later : Files.Keeps (fun _ => True) run'.files final)
    (independent : Independent final out jobs) :
    (∀ job ∈ jobs, Completed ix r run' job) ∧ run' = { run with files := run'.files } ∧
      Files.Within (Places run'.files jobs) run.files run'.files := by
  induction jobs generalizing run ps with
  | nil =>
    obtain ⟨_, rfl⟩ := run_pure_eq_ok.mp h
    exact ⟨fun _ member => absurd member List.not_mem_nil, rfl, .refl _ _⟩
  | cons job jobs ih =>
    obtain _ | @⟨_, p, _, ps, first, others⟩ := ready
    obtain ⟨_, mid, completes, rest⟩ := run_bind_eq_ok.mp h
    have output : run.AtOutput p.1.file.place :=
      ⟨job, there job List.mem_cons_self, first.plain, first.found⟩
    obtain ⟨grows, settled'⟩ := (does_complete start out selected ix job p.1 p.2).of_ok
      ⟨settled, there job List.mem_cons_self, output⟩ completes
    have there' (other : Job) (member : other ∈ jobs) : other ∈ mid.jobs :=
      grows.jobs other (there other (List.mem_cons_of_mem job member))
    have outputs : ∀ t ∈ jobs.zip ps, t.1 ∈ mid.jobs ∧ mid.AtOutput t.2.1.file.place := by
      intro t member
      have waiting := List.forall₂_zip others member
      have other := there' t.1 (List.of_mem_zip member).1
      exact ⟨other, t.1, other, waiting.plain, grows.files.locate waiting.plain waiting.found⟩
    obtain ⟨grows', _⟩ := (does_completions start out selected ix (jobs.zip ps)).of_ok
      ⟨settled', outputs⟩ rest
    have later' := grows'.files.trans later
    obtain ⟨done, within, same⟩ :=
      complete_spec first completes (grows.files.trans later') independent.own
    have located := grows.files.locate first.plain first.found
    have waiting := waiting_of_complete first others within later' independent
    obtain ⟨completed, same', within'⟩ := ih settled' there' waiting rest independent.tail
    refine ⟨List.forall_mem_cons.mpr ⟨?_, completed⟩, ?_,
      Places.cons first.plain located within within'⟩
    · exact done.persist within' (fun p' found => independent.not_places found) later
        independent.others
    · rw [same', same]

theorem phases_eq_ok {ix : MappingIndex} {tmp : String}
    (h : (phases ix tmp out selected).run run = (.ok (), run')) :
    ∃ staged jars written wideners asked,
      (selected.forM fun p => stage tmp out p.1 p.2).run run = (.ok (), staged) ∧
      (staged.jobs.mapM produce).run staged = (.ok jars, written) ∧
      (staged.jobs.mapM (widener ix)).run written = (.ok wideners, asked) ∧
      ((staged.jobs.zip (jars.zip wideners)).forM fun p => complete ix p.1 p.2.1 p.2.2).run
        { asked with remapper := asked.remapper.finish } = (.ok (), run') := by
  unfold phases at h
  obtain ⟨_, staged, stages, h₁⟩ := run_bind_eq_ok.mp h
  obtain ⟨seen, mid, got, h₂⟩ := run_bind_eq_ok.mp h₁
  obtain ⟨rfl, rfl⟩ := run_get_eq_ok.mp got
  obtain ⟨jars, written, produces, h₃⟩ := run_bind_eq_ok.mp h₂
  obtain ⟨wideners, asked, asks, h₄⟩ := run_bind_eq_ok.mp h₃
  obtain ⟨_, finished, modified, completes⟩ := run_bind_eq_ok.mp h₄
  rw [run_modify_eq_ok.mp modified] at completes
  exact ⟨_, jars, written, wideners, asked, stages, produces, asks, completes⟩

/-- The run once every mod has been staged. -/
def staged (ix : MappingIndex) (classpath : List String) (tmp out : String)
    (artifacts : List Artifact) (fs : Files) : Run :=
  match ({ index := ix } : Remapper).readClasspath fs classpath with
  | .error _ => { files := fs, remapper := { index := ix } }
  | .ok (remapper, _) =>
    (((selection artifacts).forM fun p => stage tmp out p.1 p.2).run { files := fs, remapper }).2

theorem forall₂_zip_right {α β γ : Type} {R : α → β → Prop} {S : α → γ → Prop} {as : List α}
    {bs : List β} {cs : List γ} (h : List.Forall₂ R as bs) (h' : List.Forall₂ S as cs) :
    List.Forall₂ (fun a p => R a p.1 ∧ S a p.2) as (bs.zip cs) := by
  induction h generalizing cs with
  | nil => exact .nil
  | cons first _ ih =>
    obtain _ | ⟨first', others⟩ := h'
    exact .cons ⟨first, first'⟩ (ih others)

theorem Ready.remapper {ix : MappingIndex} {wide : Option (String × Bytes)}
    (ready : Ready ix r run job jar wide) (m : Remapper) :
    Ready ix r { run with remapper := m } job jar wide :=
  ⟨⟨⟨ready.plain, ready.found, ready.there, ready.turn, ready.flushed⟩, ready.collected⟩, ready.answer⟩

/-- Asking for an access widener changes nothing, and answers for a jar that is still there. -/
theorem ready_of_wideners {ix : MappingIndex} {jars : List OutputJar}
    {wideners : List (Option (String × Bytes))} (holds : List.Forall₂ (Holds r run) jobs jars)
    (asks : (jobs.mapM (widener ix)).run run = (.ok wideners, run')) (m : Remapper) :
    run' = run ∧ List.Forall₂ (fun job p => Ready ix r { run with remapper := m } job p.1 p.2) jobs
      (jars.zip wideners) := by
  obtain ⟨same, answers⟩ := run_mapM_eq_ok (R := fun job wide => ∀ listed,
    Jar.list run.files job.input = .ok listed →
      widenerIn ix job.artifact.metadata listed = .ok wide)
    (fun job member wide asked done => by
      obtain ⟨jar, _, held⟩ := exists_of_mem_left holds member
      obtain ⟨listed, whole, _⟩ := held.collected
      obtain ⟨answer, same⟩ := Prod.mk.inj ((run_widener whole).symm.trans done)
      refine ⟨same.symm, fun listed' whole' => ?_⟩
      obtain rfl := Except.ok.inj (whole.symm.trans whole')
      exact answer) asks
  exact ⟨same, (forall₂_zip_right holds answers).imp fun job p h => Ready.remapper ⟨h.1, h.2⟩ m⟩

/-- The parts of a run that succeeds. Each starts where the one before it ended, and from there
directories only grow. -/
theorem phases_steps {ix : MappingIndex} {tmp : String} {m : Remapper}
    (h : (phases ix tmp out selected).run { files := start, remapper := m } = (.ok (), run')) :
    ∃ staged jars written wideners asked,
      (selected.forM fun p => stage tmp out p.1 p.2).run { files := start, remapper := m } =
        (.ok (), staged) ∧
      (staged.jobs.mapM produce).run staged = (.ok jars, written) ∧
      (staged.jobs.mapM (widener ix)).run written = (.ok wideners, asked) ∧
      ((staged.jobs.zip (jars.zip wideners)).forM fun p => complete ix p.1 p.2.1 p.2.2).run
        { asked with remapper := asked.remapper.finish } = (.ok (), run') ∧
      Settled start out selected staged ∧ staged.Grows written ∧ written.Grows asked ∧
      (Settled start out selected asked ∧ ∀ job ∈ staged.jobs, job ∈ asked.jobs) ∧
      Run.Grows { asked with remapper := asked.remapper.finish } run' := by
  obtain ⟨staged, jars, written, wideners, asked, stages, produces, asks, completes⟩ := phases_eq_ok h
  obtain ⟨_, settled₁⟩ := settled_of_all stages
  obtain ⟨grows₂, ⟨settled₂, there₂⟩, outputs₂⟩ :=
    (does_productions start out selected staged.jobs).of_ok ⟨settled₁, fun _ there => there⟩ produces
  let I (run : Run) : Prop := Settled start out selected run ∧
    (∀ job ∈ staged.jobs, job ∈ run.jobs) ∧ ∀ jar ∈ jars, run.AtOutput jar.file.place
  obtain ⟨grows₃, settled₃, there₃, outputs₃⟩ := (does_mapM start out selected (I := I)
    (does_widener start out selected (fun _ h => h.1) ix) staged.jobs).of_ok
      ⟨settled₂, there₂, outputs₂⟩ asks
  have settled₄ := settled₃.remapper asked.remapper.finish
  have placed : ∀ t ∈ staged.jobs.zip (jars.zip wideners),
      t.1 ∈ asked.jobs ∧ asked.AtOutput t.2.1.file.place := by
    intro t member
    obtain ⟨job, rest⟩ := List.of_mem_zip member
    exact ⟨there₃ _ job, outputs₃ _ (List.of_mem_zip rest).1⟩
  obtain ⟨grows₄, _⟩ := (does_completions start out selected ix _).of_ok ⟨settled₄, placed⟩ completes
  exact ⟨staged, jars, written, wideners, asked, stages, produces, asks, completes, settled₁, grows₂,
    grows₃, ⟨settled₃, there₃⟩, grows₄⟩

/-- A run that succeeds, from the stages to the last jar. -/
theorem phases_spec {ix : MappingIndex} {tmp : String} {m : Remapper}
    (h : (phases ix tmp out selected).run { files := start, remapper := m } = (.ok (), run'))
    (outputs : (selected.map fun q => Path.join out q.2.fileName).Nodup)
    (later : Files.Keeps (fun _ => True) run'.files final) :
    ∃ staged, (selected.forM fun p => stage tmp out p.1 p.2).run { files := start, remapper := m } =
        (.ok (), staged) ∧ (Apart final staged.jobs → run'.jobs = staged.jobs ∧
          List.Forall₂ (Follows out) selected staged.jobs ∧
          ∀ job ∈ staged.jobs, ∃ listed classes hs entries, Fed staged job listed classes hs ∧
            (∀ c, job.artifact.jar start = .ok c → c.list = .ok listed) ∧
            output ix staged.remapper.resolver job.artifact.metadata listed = .ok entries ∧
            Jar.list run'.files job.input = .ok listed ∧
            run'.files.read job.output = .ok (.archive entries)) := by
  obtain ⟨staged, jars, written, wideners, asked, stages, produces, asks, completes, settled₁, grows₂,
    grows₃, ⟨settled₃, there₃⟩, grows₄⟩ := phases_steps h
  refine ⟨staged, stages, fun apart => ?_⟩
  have settled₄ := settled₃.remapper asked.remapper.finish
  have later₃ := grows₄.files.trans later
  have later₂ := grows₃.files.trans later₃
  have supplied := supplied_of_all stages (grows₂.files.trans later₂) apart
  have follow := follows_of_all stages
  have independent : Independent final out staged.jobs := .of_follows follow outputs apart
  have fed : ∀ job ∈ staged.jobs, ∃ listed classes hs, Fed staged job listed classes hs := by
    intro job member
    obtain ⟨listed, classes, hs, fed, _⟩ := supplied job member
    exact ⟨listed, classes, hs, fed⟩
  obtain ⟨holds, same₂, within₂⟩ :=
    productions_spec settled₁ (fun _ there => there) produces fed later₂ independent
  obtain ⟨rfl, ready⟩ := ready_of_wideners holds asks asked.remapper.finish
  obtain ⟨completed, same₄, within₄⟩ :=
    completions_spec settled₄ there₃ ready completes later independent
  refine ⟨by rw [same₄, same₂], follow, fun job member => ?_⟩
  obtain ⟨listed, classes, hs, fed, jar⟩ := supplied job member
  obtain ⟨listed', entries, whole', made, read⟩ := completed job member
  have written := list_apart fed.whole within₂.toKeeps (grows₂.files.trans later₂) fun p here =>
    here.apart later₂ (apart job member)
  have whole := list_apart written within₄.toKeeps later₃ fun p here =>
    here.apart later (apart job member)
  obtain rfl := Except.ok.inj (whole.symm.trans whole')
  exact ⟨listed, classes, hs, entries, fed, jar, made, whole', read⟩

theorem remap_eq_ok {ix : MappingIndex} {classpath : List String} {tmp : String}
    {artifacts artifacts' : List Artifact} {fs fs' : Files} {n : ℕ}
    (h : remap (some ix) classpath tmp out artifacts fs = (fs', artifacts', .ok n))
    (some : selection artifacts ≠ []) :
    ∃ m classes run, ({ index := ix } : Remapper).readClasspath fs classpath = .ok (m, classes) ∧
      (phases ix tmp out (selection artifacts)).run { files := fs, remapper := m } = (.ok (), run) ∧
      fs' = dropTemporaries run.jobs run.files := by
  unfold remap at h
  split at h
  · exact nomatch ‹Option.some ix = none›
  · exact absurd ‹selection artifacts = []› some
  · rename_i _ _ ix' same _
    obtain rfl := Option.some.inj same
    split at h
    · exact nomatch (Prod.mk.inj (Prod.mk.inj h).2).2
    · rename_i m classes read
      rcases result : (phases ix tmp out (selection artifacts)).run { files := fs, remapper := m } with
        ⟨e | u, run⟩
      · rw [result] at h
        exact nomatch (Prod.mk.inj (Prod.mk.inj h).2).2
      · rw [result] at h
        exact ⟨m, classes, run, read, result, (Prod.mk.inj h).1.symm⟩

/-- Where a batch succeeds and no output is another one, or an input, each selected mod has the jar
that is computed from its own one, as that was before the batch, and from the classes registered. It
may show only later that outputs are not where inputs are. -/
theorem output_of_remap_later {ix : MappingIndex} {classpath : List String} {tmp out : String}
    {artifacts artifacts' : List Artifact} {fs fs' : Files} {n : ℕ}
    (done : remap (some ix) classpath tmp out artifacts fs = (fs', artifacts', .ok n))
    (outputs : ((selection artifacts).map fun q => Path.join out q.2.fileName).Nodup)
    (later : Files.Keeps (fun _ => True) fs' final)
    (apart : Apart final (staged ix classpath tmp out artifacts fs).jobs) :
    let run := staged ix classpath tmp out artifacts fs
    ∀ q ∈ selection artifacts, ∃ job ∈ run.jobs, job.artifact = q.2 ∧ ∃ listed classes hs entries,
      Fed run job listed classes hs ∧ (∀ c, q.2.jar fs = .ok c → c.list = .ok listed) ∧
      output ix run.remapper.resolver q.2.metadata listed = .ok entries ∧
      fs'.read (Path.join out q.2.fileName) = .ok (.archive entries) := by
  intro run q member
  obtain ⟨m, classes, run', read, result, dropped⟩ :=
    remap_eq_ok done (List.ne_nil_of_mem member)
  obtain ⟨_, settled⟩ := (does_phases fs out (selection artifacts) ix tmp).of_ok
    (settled_start fs m) result
  obtain ⟨fs'', folded, keeps, _⟩ := removeAll_spec _ settled.isPlain_temporaries run'.files
  obtain rfl : fs'' = fs' := folded.symm.trans dropped.symm
  obtain ⟨staged₁, stages, spec⟩ := phases_spec result outputs (keeps.forget.trans later)
  have state : staged ix classpath tmp out artifacts fs = staged₁ := by
    rw [staged, read]
    exact congrArg Prod.snd stages
  rw [state] at apart
  obtain ⟨jobs, follow, all⟩ := spec apart
  obtain ⟨job, there, follows⟩ := exists_of_mem_left follow member
  obtain ⟨listed, classes, hs, entries, fed, jar, made, _, read⟩ := all job there
  rw [show run = staged₁ from state, ← follows.output, ← follows.artifact]
  refine ⟨job, there, rfl, listed, classes, hs, entries, fed, jar, made, ?_⟩
  refine keeps.read read fun p found => ?_
  -- No temporary input is where an output is.
  rintro ⟨path, inside, found'⟩
  have plain := settled.isPlain_temporaries path inside
  obtain ⟨other, there', rfl⟩ := List.mem_map.mp inside
  exact apart other (jobs ▸ (List.mem_filter.mp there').1) job there p (later.locate plain found')
    (later.locate (settled.named job (jobs ▸ there)).plain found)

theorem output_of_remap {ix : MappingIndex} {classpath : List String} {tmp out : String}
    {artifacts artifacts' : List Artifact} {fs fs' : Files} {n : ℕ}
    (done : remap (some ix) classpath tmp out artifacts fs = (fs', artifacts', .ok n))
    (outputs : ((selection artifacts).map fun q => Path.join out q.2.fileName).Nodup)
    (apart : Apart fs' (staged ix classpath tmp out artifacts fs).jobs) :
    let run := staged ix classpath tmp out artifacts fs
    ∀ q ∈ selection artifacts, ∃ job ∈ run.jobs, job.artifact = q.2 ∧ ∃ listed classes hs entries,
      Fed run job listed classes hs ∧ (∀ c, q.2.jar fs = .ok c → c.list = .ok listed) ∧
      output ix run.remapper.resolver q.2.metadata listed = .ok entries ∧
      fs'.read (Path.join out q.2.fileName) = .ok (.archive entries) :=
  output_of_remap_later done outputs (.refl _ fs') apart

end ModRemap.Pipeline
