import Mathlib
import ModRemap.Proofs.BatchSteps
import ModRemap.Proofs.JarFiles

/-! What a failed run leaves behind. At every moment each file that a run has made stands at a place
that some job names, and dropping the outputs and the temporary inputs clears all those places. -/

namespace ModRemap.Pipeline

variable {fs₀ : Files} {out : String} {selected : List (ℕ × Artifact)}

namespace Run

/-- The output of some job is at this place. -/
def AtOutput (run : Run) (p : Place) : Prop :=
  ∃ job ∈ run.jobs, Files.IsPlain job.output ∧ run.files.locate job.output = .ok p

/-- A temporary input of some job is at this place. -/
def AtTemporary (run : Run) (p : Place) : Prop :=
  ∃ job ∈ run.jobs, job.temporary = true ∧ Files.IsPlain job.input ∧
    run.files.locate job.input = .ok p

end Run

/-- A job names its output after a selected mod. -/
structure Job.Named (out : String) (selected : List (ℕ × Artifact)) (job : Job) : Prop where
  output : ∃ q ∈ selected, job.output = Path.join out q.2.fileName
  plain : Files.IsPlain job.output
  temporary : job.temporary = true → Files.IsPlain job.input

/-- A run that can be undone: outside of the places of its jobs, and of `pending`, the files are
those of `fs₀`. A temporary input has taken no place of a file, unless that had been cleared for an
output. -/
structure Recoverable (fs₀ : Files) (out : String) (selected : List (ℕ × Artifact))
    (pending : Place → Prop) (run : Run) : Prop where
  named : ∀ job ∈ run.jobs, job.Named out selected
  temporary : ∀ job ∈ run.jobs, job.temporary = true → ∃ p, run.files.locate job.input = .ok p ∧
    ∀ c, fs₀.node? p = some (.file c) → run.AtOutput p
  elsewhere : ∀ p c, ¬run.AtOutput p → ¬run.AtTemporary p → ¬pending p →
    (run.files.node? p = some (.file c) ↔ fs₀.node? p = some (.file c))

theorem toList_fileName (a : Artifact) : ∃ v, '/' ∉ v ∧ a.fileName.toList = v ++ ".jar".toList := by
  have clear (s : String) : '/' ∉ (Artifact.sanitize s).toList := by
    rw [Artifact.sanitize, String.toList_ofList]
    intro slash
    obtain ⟨c, _, same⟩ := List.mem_map.mp slash
    split_ifs at same with plain
    · rw [same] at plain
      exact absurd plain (by decide)
    · exact absurd same (by decide)
  refine ⟨(Artifact.sanitize a.id ++ "-" ++ Artifact.sanitize a.version).toList, ?_, ?_⟩
  · rw [String.toList_append, String.toList_append, List.mem_append, List.mem_append, not_or, not_or]
    exact ⟨⟨clear a.id, by decide⟩, clear a.version⟩
  · rw [Artifact.fileName, String.toList_append]

theorem isAbsolute_fileName (a : Artifact) : Path.isAbsolute a.fileName = false := by
  obtain ⟨v, clear, text⟩ := toList_fileName a
  by_contra absolute
  obtain ⟨rest, split⟩ := starts_iff.mp (Bool.eq_true_of_not_eq_false absolute)
  have slash : '/' ∈ v ++ ".jar".toList := by
    rw [← text, split]
    exact List.mem_append_left rest (by decide)
  rw [List.mem_append, or_iff_right clear] at slash
  exact absurd slash (by decide)

/-- All outputs are in one directory. -/
theorem toList_output (out : String) : ∃ u, ∀ a : Artifact,
    (Path.join out a.fileName).toList = u ++ a.fileName.toList := by
  by_cases direct : out = "" || ends "/" out
  · refine ⟨out.toList, fun a => ?_⟩
    rw [Path.join, isAbsolute_fileName, if_neg Bool.false_ne_true, if_pos direct,
      String.toList_append]
  · refine ⟨(out ++ "/").toList, fun a => ?_⟩
    rw [Path.join, isAbsolute_fileName, if_neg Bool.false_ne_true, if_neg direct,
      String.toList_append]

theorem isPlain_output (out : String) (a : Artifact) :
    Files.IsPlain (Path.join out a.fileName) := by
  obtain ⟨u, joined⟩ := toList_output out
  obtain ⟨v, _, text⟩ := toList_fileName a
  refine Files.isPlain_of_jar (u := u ++ v) ?_
  rw [joined, text, List.append_assoc]

/-- Outputs with different paths are at different places. -/
theorem output_unique {fs : Files} {p : Place} {a a' : Artifact}
    (found : fs.locate (Path.join out a.fileName) = .ok p)
    (found' : fs.locate (Path.join out a'.fileName) = .ok p) :
    Path.join out a.fileName = Path.join out a'.fileName := by
  obtain ⟨u, joined⟩ := toList_output out
  obtain ⟨last, spec⟩ := Files.last_of_jar fs u
  obtain ⟨v, clear, text⟩ := toList_fileName a
  obtain ⟨v', clear', text'⟩ := toList_fileName a'
  have one := spec _ v p clear (by rw [joined, text]) found
  have other := spec _ v' p clear' (by rw [joined, text']) found'
  have names := String.ofList_injective (Option.some.inj (one.symm.trans other))
  have files : a.fileName.toList = a'.fileName.toList := by
    rw [text, text']
    exact List.append_cancel_left names
  rw [String.toList_inj.mp files]

section

variable {run run' : Run}

theorem Run.AtOutput.mono (grows : run.Grows run') {p : Place} (h : run.AtOutput p) :
    run'.AtOutput p := by
  obtain ⟨job, there, plain, found⟩ := h
  exact ⟨job, grows.jobs job there, plain, grows.files.locate plain found⟩

theorem Run.AtTemporary.mono (grows : run.Grows run') {p : Place} (h : run.AtTemporary p) :
    run'.AtTemporary p := by
  obtain ⟨job, there, temporary, plain, found⟩ := h
  exact ⟨job, grows.jobs job there, temporary, plain, grows.files.locate plain found⟩

variable {pending : Place → Prop}

/-- A file that was there before can be where a temporary input is only if it has been cleared. -/
theorem Recoverable.atOutput (h : Recoverable fs₀ out selected pending run) {p : Place}
    {c : Content} (old : fs₀.node? p = some (.file c)) (here : run.AtTemporary p) :
    run.AtOutput p := by
  obtain ⟨job, there, temporary, _, found⟩ := here
  obtain ⟨q, found', cleared⟩ := h.temporary job there temporary
  obtain rfl := Except.ok.inj (found.symm.trans found')
  exact cleared c old

/-- The files change at what are then places of jobs, or pending ones. -/
theorem Recoverable.files (h : Recoverable fs₀ out selected pending run)
    {P pending' : Place → Prop} {files : Files} {m : Remapper}
    (keeps : Files.Keeps P run.files files)
    (among : ∀ p, P p → Run.AtOutput { files, remapper := m, jobs := run.jobs } p ∨ pending' p)
    (wider : ∀ p, pending p → pending' p) :
    Recoverable fs₀ out selected pending' { files, remapper := m, jobs := run.jobs } := by
  have grows : run.Grows { files, remapper := m, jobs := run.jobs } :=
    ⟨keeps.forget, fun _ there => there⟩
  refine ⟨h.named, fun job there temporary => ?_, fun p c output temporary other => ?_⟩
  · obtain ⟨p, found, cleared⟩ := h.temporary job there temporary
    exact ⟨p, keeps.locate ((h.named job there).temporary temporary) found,
      fun c old => (cleared c old).mono grows⟩
  · have output' : ¬run.AtOutput p := fun here => output (here.mono grows)
    have temporary' : ¬run.AtTemporary p := fun here => temporary (here.mono grows)
    have outside : ¬P p := fun inside => (among p inside).elim output other
    exact (keeps.elsewhere p c outside).trans
      (h.elsewhere p c output' temporary' fun waiting => other (wider p waiting))

theorem Recoverable.same (h : Recoverable fs₀ out selected pending run) {pending' : Place → Prop}
    {files : Files} (m : Remapper) (keeps : Files.Keeps (fun _ => False) run.files files)
    (wider : ∀ p, pending p → pending' p) :
    Recoverable fs₀ out selected pending' { files, remapper := m, jobs := run.jobs } :=
  h.files keeps (fun _ none => none.elim) wider

theorem Recoverable.remapper (h : Recoverable fs₀ out selected pending run) (m : Remapper) :
    Recoverable fs₀ out selected pending { run with remapper := m } :=
  h.same m (.refl _ run.files) fun _ waiting => waiting

/-- A place without a file has none to lose, unless it has been cleared for an output. -/
theorem Recoverable.atOutput_of_free (h : Recoverable fs₀ out selected (fun _ => False) run)
    {p : Place} (free : ∀ c, run.files.node? p ≠ some (.file c)) {c : Content}
    (old : fs₀.node? p = some (.file c)) : run.AtOutput p := by
  by_contra output
  have temporary : ¬run.AtTemporary p := fun here => output (h.atOutput old here)
  exact free c ((h.elsewhere p c output temporary id).mpr old)

/-- The job that is registered names what was pending. -/
theorem Recoverable.register (h : Recoverable fs₀ out selected pending run) {job : Job}
    (named : job.Named out selected)
    (fresh : job.temporary = true → ∃ p, run.files.locate job.input = .ok p ∧
      ∀ c, fs₀.node? p = some (.file c) → run.AtOutput p)
    (settled : ∀ p, pending p → job.temporary = true ∧ run.files.locate job.input = .ok p) :
    Recoverable fs₀ out selected (fun _ => False) { run with jobs := run.jobs ++ [job] } := by
  have grows : run.Grows { run with jobs := run.jobs ++ [job] } :=
    ⟨.refl _ _, fun _ there => List.mem_append_left _ there⟩
  refine ⟨fun job' there => ?_, fun job' there temporary => ?_, fun p c output temporary _ => ?_⟩
  · rcases List.mem_append.mp there with there | last
    · exact h.named job' there
    · exact List.mem_singleton.mp last ▸ named
  · have known : ∃ p, run.files.locate job'.input = .ok p ∧
        ∀ c, fs₀.node? p = some (.file c) → run.AtOutput p := by
      rcases List.mem_append.mp there with there | last
      · exact h.temporary job' there temporary
      · obtain rfl := List.mem_singleton.mp last
        exact fresh temporary
    obtain ⟨p, found, cleared⟩ := known
    exact ⟨p, found, fun c old => (cleared c old).mono grows⟩
  · refine h.elsewhere p c (fun here => output (here.mono grows))
      (fun here => temporary (here.mono grows)) fun waiting => temporary ?_
    obtain ⟨isTemporary, found⟩ := settled p waiting
    exact ⟨job, List.mem_append_right _ List.mem_cons_self, isTemporary,
      named.temporary isTemporary, found⟩

end

/-! Every step of a run leaves it recoverable, whether it fails or not. -/

section

variable (fs₀ out selected)

/-- What holds between the steps. -/
abbrev Settled : Run → Prop := Recoverable fs₀ out selected fun _ => False

theorem stable_mem_jobs (job : Job) : Stable fun run => job ∈ run.jobs :=
  fun _ _ grows => grows.jobs job

theorem does_inputOf (tmp : String) (a : Artifact) :
    Does (Settled fs₀ out selected) (Settled fs₀ out selected) (inputOf tmp a) fun r run =>
      Recoverable fs₀ out selected (fun p => r.2 = true ∧ run.files.locate r.1 = .ok p) run ∧
        (r.2 = true → Files.IsPlain r.1 ∧ ∃ p, run.files.locate r.1 = .ok p ∧
          ∀ c, fs₀.node? p = some (.file c) → run.AtOutput p) := by
  unfold inputOf
  cases a.path? with
  | some path =>
    refine .pure fun run h => ⟨?_, nofun⟩
    exact h.same run.remapper (.refl _ run.files) fun _ none => none.elim
  | none =>
    refine Does.bind (M := fun path run =>
      Recoverable fs₀ out selected (fun p => run.files.locate path = .ok p) run ∧
        Files.IsPlain path ∧ ∃ p, run.files.locate path = .ok p ∧
          ∀ c, fs₀.node? p = some (.file c) → run.AtOutput p) ?_ ?_
    · refine .onFiles fun run h => ?_
      dsimp only
      rcases copied : a.copyToTemporary run.files tmp with ⟨files, e | path⟩
      · have keeps := Artifact.copyToTemporary_error copied
        exact ⟨keeps.mono fun _ none => none.elim, h.same run.remapper keeps fun _ none => none⟩
      · obtain ⟨plain, p, c, found, within, free, _⟩ := Artifact.copyToTemporary_eq_ok copied
        have keeps : Files.Keeps (fun _ => True) run.files files :=
          within.toKeeps.forget
        have grows : run.Grows { run with files } := ⟨keeps, fun _ there => there⟩
        refine ⟨keeps, ?_, plain, p, found, fun c old => ?_⟩
        · exact h.files within.toKeeps (fun q here => .inr (here ▸ found)) fun _ none => none.elim
        · exact (h.atOutput_of_free free old).mono grows
    · refine fun path => .pure fun run ⟨h, plain, fresh⟩ => ⟨?_, fun _ => ⟨plain, fresh⟩⟩
      exact h.same run.remapper (.refl _ run.files) fun p found => ⟨rfl, found⟩

theorem does_onRemapper {α : Type} (act : Remapper → Files → Remapper × Except RemapError α) :
    Does (Settled fs₀ out selected) (Settled fs₀ out selected) (onRemapper act)
      fun _ => Settled fs₀ out selected :=
  Does.mono (Does.onRemapper (I := Settled fs₀ out selected) (fun _ m h => h.remapper m)
    fun _ h => h) (fun _ h => h) fun _ _ h => h.1

/-- The output that is cleared is the one that has just been registered. -/
theorem does_clear (output : String) :
    Does (Settled fs₀ out selected)
      (fun run => Settled fs₀ out selected run ∧ ∃ job ∈ run.jobs, job.output = output)
      (changeFiles (fun _ => .io) fun fs => fs.removeIfThere output)
      fun _ => Settled fs₀ out selected := by
  refine .changeFiles (fun _ h => h.1) fun run files ⟨h, job, there, named⟩ removed => ?_
  rcases Files.removeIfThere_eq_ok removed with rfl | removed
  · exact ⟨.refl _ _, h⟩
  · obtain ⟨_, p, found, within, _⟩ := Files.remove_eq_ok removed
    refine ⟨within.toKeeps.forget, h.files within.toKeeps (fun q here => ?_)
      fun _ none => none⟩
    have found' := within.toKeeps.locate (h.named job there).plain (named ▸ found)
    exact .inl ⟨job, there, (h.named job there).plain, here ▸ found'⟩

theorem named_of_mem {position : ℕ} {a : Artifact} (member : (position, a) ∈ selected) (tag : ℕ)
    {input : String} {temporary : Bool} (plain : temporary = true → Files.IsPlain input) :
    Job.Named out selected ⟨position, a, tag, input, temporary, Path.join out a.fileName⟩ := by
  refine ⟨⟨(position, a), member, ?_⟩, ?_, plain⟩
  · dsimp only
  · dsimp only
    exact isPlain_output out a

theorem does_stage (tmp : String) {position : ℕ} {a : Artifact} (member : (position, a) ∈ selected) :
    Does (Settled fs₀ out selected) (Settled fs₀ out selected) (stage tmp out position a)
      fun _ => Settled fs₀ out selected := by
  unfold stage
  refine (does_onRemapper fs₀ out selected _).bind fun tag => ?_
  refine (does_inputOf fs₀ out selected tmp a).bind fun (input, temporary) => ?_
  refine Does.bind (M := fun _ run => Settled fs₀ out selected run ∧
    ∃ job ∈ run.jobs, job.output = Path.join out a.fileName) ?_ fun _ => ?_
  · refine Does.modify fun run before => ?_
    obtain ⟨h, fresh⟩ := before
    have named := named_of_mem out selected member tag fun isTemporary => (fresh isTemporary).1
    have registered := h.register named (fun isTemporary => (fresh isTemporary).2)
      fun _ waiting => waiting
    refine ⟨⟨.refl _ _, fun _ there => List.mem_append_left _ there⟩, registered, _,
      List.mem_append_right _ List.mem_cons_self, ?_⟩
    dsimp only
  · refine (does_clear fs₀ out selected _).bind fun _ => ?_
    exact (does_onRemapper fs₀ out selected _).bind fun _ => .pure fun _ h => h

theorem does_create (job : Job) :
    Does (Settled fs₀ out selected) (fun run => Settled fs₀ out selected run ∧ job ∈ run.jobs)
      (onFiles RemapError.ofJar fun fs => OutputJar.create fs job.output) fun jar run =>
        Settled fs₀ out selected run ∧ run.AtOutput jar.file.place := by
  refine .onFiles fun run ⟨h, there⟩ => ?_
  rcases created : OutputJar.create run.files job.output with ⟨files, e | jar⟩
  · have within := OutputJar.create_error created
    exact ⟨within.toKeeps.forget,
      h.same run.remapper within.toKeeps fun _ none => none⟩
  · obtain ⟨_, _, _, found, within, _⟩ := OutputJar.create_eq_ok created
    have plain := (h.named job there).plain
    refine ⟨within.toKeeps.forget, h.files within.toKeeps (fun q here => ?_)
      fun _ none => none, job, there, plain, found⟩
    -- The place is found in the new files: its directory may have been made just now.
    exact .inl ⟨job, there, plain, here ▸ found⟩

/-- Writing to an open jar at the place of an output. -/
theorem Recoverable.updateOpen {run : Run} (h : Settled fs₀ out selected run) {f : OpenFile}
    (output : run.AtOutput f.place) (change : Content → Content) :
    run.Grows { run with files := run.files.updateOpen f change } ∧
      Settled fs₀ out selected { run with files := run.files.updateOpen f change } := by
  have within := run.files.updateOpen_within f change
  have grows : run.Grows { run with files := run.files.updateOpen f change } :=
    ⟨within.toKeeps.forget, fun _ there => there⟩
  exact ⟨grows, h.files within.toKeeps (fun q here => .inl (here ▸ output.mono grows))
    fun _ none => none⟩

theorem does_produce (job : Job) :
    Does (Settled fs₀ out selected) (fun run => Settled fs₀ out selected run ∧ job ∈ run.jobs)
      (produce job) fun jar run =>
        (Settled fs₀ out selected run ∧ job ∈ run.jobs) ∧ run.AtOutput jar.file.place := by
  let I (jar : OutputJar) (run : Run) : Prop :=
    Settled fs₀ out selected run ∧ run.AtOutput jar.file.place ∧ job ∈ run.jobs
  have collected {jar jar' : OutputJar} {run : Run} (h : I jar run) (more : jar.Collects jar') :
      I jar' run := by
    obtain ⟨entries, rfl⟩ := more
    exact h
  unfold produce
  refine Does.bind (M := I) ?_ fun jar => ?_
  · refine Does.mono ((does_create fs₀ out selected job).frame (stable_mem_jobs job))
      (fun _ h => ⟨h, h.2⟩) fun _ _ h => ⟨h.1.1, h.1.2, h.2⟩
  refine Does.bind (M := I) ?_ fun jar' => ?_
  · refine Does.mono (Does.askFiles fun _ h => h.1) (fun _ h => h) fun jar' run ⟨h, read⟩ => ?_
    refine collected h ?_
    have collects := jar.collects_copyResources run.files job.input
    rcases copied : jar.copyResources run.files job.input with ⟨jar₁, e | n⟩
    · rw [copied] at read
      exact nomatch read
    · rw [copied] at read collects
      exact Except.ok.inj read ▸ collects
  refine Does.bind (M := I) ?_ fun jar'' => ?_
  · refine Does.mono (Does.onRemapper (I := I jar') (fun run m h => ⟨h.1.remapper m, h.2⟩)
      fun _ h => h.1) (fun _ h => h) fun jar'' run ⟨h, m, applied⟩ => ?_
    refine collected h ?_
    have collects := m.collects_apply job.tag jar'
    rcases done : m.apply job.tag jar' with ⟨jar₁, e | n⟩
    · rw [done] at applied
      exact nomatch applied
    · rw [done] at applied collects
      exact Except.ok.inj applied ▸ collects
  · refine Does.modifyGet fun run ⟨h, output, there⟩ => ?_
    obtain ⟨grows, settled⟩ := Recoverable.updateOpen fs₀ out selected h output
      (Content.extend jar''.flushed jar''.entries)
    exact ⟨grows, ⟨settled, grows.jobs job there⟩, output.mono grows⟩

/-- Steps that only ask leave everything as it is. -/
theorem does_readEntry {I : Run → Prop} (settled : ∀ run, I run → Settled fs₀ out selected run)
    (input name : String) :
    Does (Settled fs₀ out selected) I
      (askFiles RemapError.ofJar fun fs => Jar.readEntry fs input name) fun _ => I :=
  (Does.askFiles settled).mono (fun _ h => h) fun _ _ h => h.1

theorem does_widener {I : Run → Prop} (settled : ∀ run, I run → Settled fs₀ out selected run)
    (ix : MappingIndex) (job : Job) :
    Does (Settled fs₀ out selected) I (widener ix job) fun _ => I := by
  unfold widener
  split
  · exact .pure fun _ h => h
  · refine (does_readEntry fs₀ out selected settled _ _).bind fun found => ?_
    split
    · exact .throw settled
    · split
      · exact .pure fun _ h => h
      · exact .throw settled

theorem does_declaredRefmap {I : Run → Prop}
    (settled : ∀ run, I run → Settled fs₀ out selected run) (job : Job) (config : String) :
    Does (Settled fs₀ out selected) I (declaredRefmap job config) fun _ => I := by
  unfold declaredRefmap
  refine (does_readEntry fs₀ out selected settled _ _).bind fun found => ?_
  split
  · exact .pure fun _ h => h
  · split
    · exact .throw settled
    · exact .pure fun _ h => h

theorem does_remapRefmap {I : Run → Prop}
    (settled : ∀ run, I run → Settled fs₀ out selected run) (ix : MappingIndex) (job : Job)
    (path : String) :
    Does (Settled fs₀ out selected) I (remapRefmap ix job path) fun _ => I := by
  unfold remapRefmap
  refine (does_readEntry fs₀ out selected settled _ _).bind fun found => ?_
  split
  · exact .pure fun _ h => h
  · split
    · exact .throw settled
    · exact .pure fun _ h => h

theorem does_mapM {α β : Type} {I : Run → Prop} {f : α → Batch β}
    (each : ∀ a, Does (Settled fs₀ out selected) I (f a) fun _ => I) (as : List α) :
    Does (Settled fs₀ out selected) I (as.mapM f) fun _ => I :=
  Does.mono (Does.mapM (P := fun _ _ _ => True)
    (fun a _ => (each a).mono (fun _ h => h) fun _ _ h => ⟨h, trivial⟩) fun _ _ _ _ _ h => h)
    (fun _ h => h) fun _ _ h => h.1

theorem does_complete (ix : MappingIndex) (job : Job) (jar : OutputJar)
    (wide : Option (String × Bytes)) :
    Does (Settled fs₀ out selected)
      (fun run => Settled fs₀ out selected run ∧ job ∈ run.jobs ∧ run.AtOutput jar.file.place)
      (complete ix job jar wide) fun _ => Settled fs₀ out selected := by
  let I (run : Run) : Prop := Settled fs₀ out selected run ∧ job ∈ run.jobs
  have settled (run : Run) (h : I run) : Settled fs₀ out selected run := h.1
  unfold complete
  refine Does.bind (M := fun _ => I) ?_ fun _ => ?_
  · refine Does.modify fun run ⟨h, there, output⟩ => ?_
    obtain ⟨grows, h'⟩ := Recoverable.updateOpen fs₀ out selected h output
      (Content.close jar.flushed jar.entries)
    exact ⟨grows, h', there⟩
  refine (does_mapM fs₀ out selected (does_declaredRefmap fs₀ out selected settled job) _).bind
    fun declared => ?_
  refine (does_mapM fs₀ out selected (does_remapRefmap fs₀ out selected settled ix job) _).bind
    fun refmaps => ?_
  refine Does.changeFiles settled fun run files ⟨h, there⟩ overwritten => ?_
  rcases Jar.overwrite_eq_ok overwritten with ⟨_, rfl⟩ | ⟨_, _, _, _, replaced⟩
  · exact ⟨.refl _ _, h⟩
  · obtain ⟨plain, p, found, within, _⟩ := Files.replace_eq_ok replaced
    refine ⟨within.toKeeps.forget, h.files within.toKeeps (fun q here => ?_)
      fun _ none => none⟩
    exact .inl ⟨job, there, plain, here ▸ within.toKeeps.locate plain found⟩

theorem does_productions (jobs : List Job) :
    Does (Settled fs₀ out selected)
      (fun run => Settled fs₀ out selected run ∧ ∀ job ∈ jobs, job ∈ run.jobs) (jobs.mapM produce)
      fun jars run => (Settled fs₀ out selected run ∧ ∀ job ∈ jobs, job ∈ run.jobs) ∧
        ∀ jar ∈ jars, run.AtOutput jar.file.place := by
  have stable : Stable fun run => ∀ job ∈ jobs, job ∈ run.jobs :=
    fun _ _ grows there job member => grows.jobs job (there job member)
  have placed (jar : OutputJar) : Stable fun run => run.AtOutput jar.file.place :=
    fun _ _ grows output => output.mono grows
  refine Does.mono (Does.mapM (fun job member => ?_) fun _ jar => placed jar) (fun _ h => h)
    fun jars run ⟨h, outputs⟩ => ⟨h, fun jar member => ?_⟩
  · exact Does.mono ((does_produce fs₀ out selected job).frame stable)
      (fun run h => ⟨⟨h.1, h.2 job member⟩, h.2⟩) fun _ _ h => ⟨⟨h.1.1.1, h.2⟩, h.1.2⟩
  · obtain ⟨_, _, output⟩ := exists_of_mem_right outputs member
    exact output

theorem does_completions (ix : MappingIndex) (ts : List (Job × OutputJar × Option (String × Bytes))) :
    Does (Settled fs₀ out selected)
      (fun run => Settled fs₀ out selected run ∧
        ∀ t ∈ ts, t.1 ∈ run.jobs ∧ run.AtOutput t.2.1.file.place)
      (ts.forM fun t => complete ix t.1 t.2.1 t.2.2) fun _ => Settled fs₀ out selected := by
  have stable : Stable fun run => ∀ t ∈ ts, t.1 ∈ run.jobs ∧ run.AtOutput t.2.1.file.place :=
    fun _ _ grows h t member => ⟨grows.jobs _ (h t member).1, (h t member).2.mono grows⟩
  refine Does.mono (Does.forM fun t member => ?_) (fun _ h => h) fun _ _ h => h.1
  exact Does.mono ((does_complete fs₀ out selected ix t.1 t.2.1 t.2.2).frame stable)
    (fun run h => ⟨⟨h.1, h.2 t member⟩, h.2⟩) fun _ _ h => h

theorem does_phases (ix : MappingIndex) (tmp : String) :
    Does (Settled fs₀ out selected) (Settled fs₀ out selected) (phases ix tmp out selected)
      fun _ => Settled fs₀ out selected := by
  unfold phases
  refine Does.bind (Does.forM fun q member => does_stage fs₀ out selected tmp member) fun _ => ?_
  refine Does.bind .get fun staged => ?_
  refine Does.bind ((does_productions fs₀ out selected staged.jobs).mono
    (fun run ⟨h, seen⟩ => ⟨h, seen ▸ fun _ there => there⟩) fun _ _ h => h) fun jars => ?_
  refine (does_mapM fs₀ out selected (does_widener fs₀ out selected (fun _ h => h.1.1) ix) _).bind
    fun wideners => ?_
  refine Does.bind (M := fun _ run => (Settled fs₀ out selected run ∧
    ∀ job ∈ staged.jobs, job ∈ run.jobs) ∧ ∀ jar ∈ jars, run.AtOutput jar.file.place)
    (Does.modify fun run ⟨⟨h, there⟩, outputs⟩ => ⟨⟨.refl _ _, fun _ h => h⟩,
      ⟨h.remapper _, there⟩, outputs⟩) fun _ => ?_
  refine (does_completions fs₀ out selected ix _).mono (fun run h => ⟨h.1.1, fun t member => ?_⟩)
    fun _ _ h => h
  obtain ⟨job, rest⟩ := List.of_mem_zip member
  exact ⟨h.1.2 _ job, h.2 _ (List.of_mem_zip rest).1⟩

end

/-! Files are cleared one path after the other. -/

theorem removeQuietly_spec (fs : Files) (path : String) :
    Files.Keeps (fun p => Files.IsPlain path ∧ (removeQuietly fs path).locate path = .ok p) fs
        (removeQuietly fs path) ∧
      (∀ p c, (removeQuietly fs path).node? p = some (.file c) → fs.node? p = some (.file c)) ∧
      ∀ p c, fs.locate path = .ok p → (removeQuietly fs path).node? p ≠ some (.file c) := by
  unfold removeQuietly
  cases removed : fs.remove path with
  | error e =>
    refine ⟨.refl _ fs, fun _ _ there => there, fun p c found there => ?_⟩
    obtain ⟨fs', done⟩ := Files.remove_of_file found there
    exact nomatch removed.symm.trans done
  | ok fs' =>
    obtain ⟨plain, p, found, within, gone, _⟩ := Files.remove_eq_ok removed
    have keeps := within.toKeeps
    refine ⟨keeps.mono fun q here => ⟨plain, here ▸ keeps.locate plain found⟩,
      fun q c there => ?_, fun q c found' there => ?_⟩
    · by_cases here : q = p
      · rw [here] at there
        exact nomatch gone.symm.trans there
      · exact (keeps.elsewhere q c here).mp there
    · obtain rfl := Except.ok.inj (found.symm.trans found')
      exact nomatch gone.symm.trans there

/-- Of the files that there were, those at the paths are gone, and no others. -/
theorem removeAll_spec (paths : List String) (plain : ∀ path ∈ paths, Files.IsPlain path)
    (fs : Files) : ∃ fs', paths.foldl removeQuietly fs = fs' ∧
      Files.Keeps (fun p => ∃ path ∈ paths, fs'.locate path = .ok p) fs fs' ∧
      (∀ p c, fs'.node? p = some (.file c) → fs.node? p = some (.file c)) ∧
      ∀ path ∈ paths, ∀ p c, fs.locate path = .ok p → fs'.node? p ≠ some (.file c) := by
  induction paths generalizing fs with
  | nil => exact ⟨fs, rfl, .refl _ fs, fun _ _ there => there, nofun⟩
  | cons path paths ih =>
    obtain ⟨first, others⟩ := List.forall_mem_cons.mp plain
    obtain ⟨keeps, fewer, gone⟩ := removeQuietly_spec fs path
    obtain ⟨fs', folded, keeps', fewer', gone'⟩ := ih others (removeQuietly fs path)
    refine ⟨fs', folded, ?_, fun p c there => fewer p c (fewer' p c there), ?_⟩
    · refine (keeps.mono fun p here => ?_).trans (keeps'.mono fun p here => ?_)
      · exact ⟨path, List.mem_cons_self, keeps'.locate first here.2⟩
      · obtain ⟨path', member, found⟩ := here
        exact ⟨path', List.mem_cons_of_mem path member, found⟩
    · intro path' member p c found there
      rcases List.mem_cons.mp member with rfl | member
      · exact gone p c found (fewer' p c there)
      · exact gone' path' member p c (keeps.locate (others path' member) found) there

theorem Recoverable.isPlain_outputs {run : Run} (h : Settled fs₀ out selected run) :
    ∀ path ∈ run.jobs.map Job.output, Files.IsPlain path := by
  intro path member
  obtain ⟨job, there, rfl⟩ := List.mem_map.mp member
  exact (h.named job there).plain

theorem Recoverable.isPlain_temporaries {run : Run} (h : Settled fs₀ out selected run) :
    ∀ path ∈ (run.jobs.filter Job.temporary).map Job.input, Files.IsPlain path := by
  intro path member
  obtain ⟨job, there, rfl⟩ := List.mem_map.mp member
  obtain ⟨there, temporary⟩ := List.mem_filter.mp there
  exact (h.named job there).temporary temporary

/-- Undoing a run that can be undone. -/
theorem Recoverable.undo {run : Run} (h : Settled fs₀ out selected run) :
    ∃ fs', dropTemporaries run.jobs (dropOutputs run.jobs run.files) = fs' ∧
      (∀ p c, fs'.node? p = some (.file c) → fs₀.node? p = some (.file c)) ∧
      ∀ p c, fs₀.node? p = some (.file c) → fs'.node? p = some (.file c) ∨
        ∃ q ∈ selected, fs'.locate (Path.join out q.2.fileName) = .ok p := by
  obtain ⟨fs₁, dropped, keeps₁, fewer₁, gone₁⟩ := removeAll_spec _ h.isPlain_outputs run.files
  obtain ⟨fs₂, dropped', keeps₂, fewer₂, gone₂⟩ := removeAll_spec _ h.isPlain_temporaries fs₁
  have grows : run.Grows { run with files := fs₂ } :=
    ⟨keeps₁.forget.trans keeps₂.forget, fun _ there => there⟩
  have atOutput {p : Place} (here : Run.AtOutput { run with files := fs₂ } p) :
      ∃ q ∈ selected, fs₂.locate (Path.join out q.2.fileName) = .ok p := by
    obtain ⟨job, there, _, found⟩ := here
    obtain ⟨q, member, named⟩ := (h.named job there).output
    exact ⟨q, member, named ▸ found⟩
  refine ⟨fs₂, by rw [dropTemporaries, dropOutputs, dropped, dropped'], fun p c there => ?_,
    fun p c old => ?_⟩
  · -- Whatever stands where a job had a file has been dropped.
    have first := fewer₂ p c there
    have output : ¬run.AtOutput p := by
      rintro ⟨job, member, _, found⟩
      exact gone₁ _ (List.mem_map_of_mem member) p c found first
    have temporary : ¬run.AtTemporary p := by
      rintro ⟨job, member, temporary, plain, found⟩
      have listed : job.input ∈ (run.jobs.filter Job.temporary).map Job.input :=
        List.mem_map_of_mem (List.mem_filter.mpr ⟨member, temporary⟩)
      exact gone₂ _ listed p c (keeps₁.locate plain found) there
    exact (h.elsewhere p c output temporary id).mp (fewer₁ p c first)
  · by_cases output : run.AtOutput p
    · exact .inr (atOutput (output.mono grows))
    have temporary : ¬run.AtTemporary p := fun here => output (h.atOutput old here)
    have there := (h.elsewhere p c output temporary id).mpr old
    by_cases first : ∃ path ∈ run.jobs.map Job.output, fs₁.locate path = .ok p
    · obtain ⟨path, member, found⟩ := first
      obtain ⟨job, listed, rfl⟩ := List.mem_map.mp member
      have plain := (h.named job listed).plain
      exact .inr (atOutput ⟨job, listed, plain, keeps₂.locate plain found⟩)
    · refine .inl ((keeps₂.elsewhere p c ?_).mpr ((keeps₁.elsewhere p c first).mpr there))
      -- A temporary input leads to one place, before and after the outputs are dropped.
      rintro ⟨path, member, found⟩
      obtain ⟨job, listed, rfl⟩ := List.mem_map.mp member
      obtain ⟨listed, isTemporary⟩ := List.mem_filter.mp listed
      obtain ⟨q, found', _⟩ := h.temporary job listed isTemporary
      have plain := (h.named job listed).temporary isTemporary
      obtain rfl := Except.ok.inj ((grows.files.locate plain found').symm.trans found)
      exact temporary ⟨job, listed, isTemporary, plain, found'⟩

theorem settled_start (fs : Files) (m : Remapper) :
    Settled fs out selected { files := fs, remapper := m } where
  named _ there := absurd there List.not_mem_nil
  temporary _ there := absurd there List.not_mem_nil
  elsewhere _ _ _ _ _ := .rfl

/-- A failure, wherever it happens, leaves no file that was not there, and takes none but those
where an output was to be. -/
theorem files_of_remap_error {index : Option MappingIndex} {classpath : List String}
    {tmp out : String} {artifacts artifacts' : List Artifact} {fs fs' : Files} {e : RemapError}
    (failed : remap index classpath tmp out artifacts fs = (fs', artifacts', .error e)) :
    artifacts' = artifacts ∧
      (∀ p c, fs'.node? p = some (.file c) → fs.node? p = some (.file c)) ∧
      ∀ p c, fs.node? p = some (.file c) → fs'.node? p = some (.file c) ∨
        ∃ q ∈ selection artifacts, fs'.locate (Path.join out q.2.fileName) = .ok p := by
  unfold remap at failed
  split at failed
  · exact nomatch (Prod.mk.inj (Prod.mk.inj failed).2).2
  · exact nomatch (Prod.mk.inj (Prod.mk.inj failed).2).2
  · split at failed
    · obtain ⟨rfl, rest⟩ := Prod.mk.inj failed
      obtain ⟨rfl, _⟩ := Prod.mk.inj rest
      exact ⟨rfl, fun _ _ there => there, fun _ _ there => .inl there⟩
    · rename_i ix _ _ remapper _ _
      have done := (does_phases fs out (selection artifacts) ix tmp
        { files := fs, remapper } (settled_start fs remapper)).2
      rcases result : (phases ix tmp out (selection artifacts)).run { files := fs, remapper } with
        ⟨e' | u, run⟩
      · rw [result] at failed done
        obtain ⟨rfl, rest⟩ := Prod.mk.inj failed
        obtain ⟨rfl, _⟩ := Prod.mk.inj rest
        obtain ⟨_, rfl, gone, left⟩ := Recoverable.undo done
        exact ⟨rfl, gone, left⟩
      · rw [result] at failed
        exact nomatch (Prod.mk.inj (Prod.mk.inj failed).2).2

/-- The class is cut short, which shows when an old output has been cleared and the jar has been
copied. -/
theorem files_of_remap_error_staged :
    let a : Artifact := {
      metadata := { id := "m", version := "1" }
      source := .memory (.archive [⟨"a.class", [0]⟩])
      requiresRemap := true }
    let fs : Files := { nodes := Dict.ofList [(["out"], .directory),
      (["out", "m-1.jar"], .file (.data [7])), (["notes"], .file (.data [8]))] }
    ∃ fs' e, remap (some ⟨"s", "t", ∅, ∅⟩) [] "tmp" "out" [a] fs = (fs', [a], .error e) ∧
      fs'.node? ["tmp"] = some .directory ∧
      (∀ p c, fs'.node? p = some (.file c) → fs.node? p = some (.file c)) ∧
      ∀ p c, fs.node? p = some (.file c) → fs'.node? p = some (.file c) ∨
        ∃ q ∈ selection [a], fs'.locate (Path.join "out" q.2.fileName) = .ok p := by
  intro a fs
  let fs' : Files := {
    nodes := Dict.ofList [(["out"], .directory), (["notes"], .file (.data [8])), (["tmp"], .directory)]
    turns := Dict.ofList [(["out", "m-1.jar"], 1), (["tmp", "m-100000.jar"], 1)] }
  have failed : remap (some ⟨"s", "t", ∅, ∅⟩) [] "tmp" "out" [a] fs =
      (fs', [a], .error (.batch (.malformedClass "a.class" .unexpectedEnd))) := by decide +kernel
  obtain ⟨_, gone, left⟩ := files_of_remap_error failed
  exact ⟨fs', _, failed, by decide, gone, left⟩

end ModRemap.Pipeline
