import Mathlib
import ModRemap.Proofs.CompletedJars
import ModRemap.Proofs.NumberedCopies

/-! What a batch needs of the files so that it can succeed. It is the same for every order of the
mods. -/

namespace ModRemap

/-- The jar is not on disk yet. -/
def Artifact.isInMemory (a : Artifact) : Bool := a.path?.isNone

namespace OutputJar

variable {fs fs' : Files} {path : String} {p : Place}

theorem directories_create {jar : OutputJar} (h : create fs path = (fs', .ok jar)) :
    ∃ made, fs.makeDirectories (Path.parent path) = (made, .ok ()) ∧
      fs'.directories = made.directories := by
  unfold create at h
  split at h
  · exact nomatch (Prod.mk.inj h).2
  · rename_i made done
    split at h
    · exact nomatch (Prod.mk.inj h).2
    · rename_i created
      obtain ⟨fs₁, written, created⟩ := except_bind_eq_ok.mp created
      obtain ⟨_, _, created⟩ := except_bind_eq_ok.mp created
      obtain ⟨rfl, _⟩ := Prod.mk.inj (Except.ok.inj created)
      obtain ⟨rfl, _⟩ := Prod.mk.inj h
      exact ⟨made, done, Files.directories_write written⟩

theorem create_of_free {made : Files} (done : fs.makeDirectories (Path.parent path) = (made, .ok ()))
    (plain : Files.IsPlain path) (found : made.locate path = .ok p) (free : p ∉ made.directories) :
    ∃ fs' jar, create fs path = (fs', .ok jar) := by
  have written := Files.write_of_free (c := .begun []) plain found free
  have found' := (Files.locate_of_directories plain (Files.directories_write written)).mpr found
  have created : made.create path (.begun []) = .ok (_, _) :=
    except_bind_eq_ok.mpr ⟨_, written, except_bind_eq_ok.mpr ⟨p, found', rfl⟩⟩
  unfold create
  rw [done]
  dsimp only
  rw [created]
  exact ⟨_, _, rfl⟩

end OutputJar

namespace Pipeline

variable {start : Files} {tmp out : String} {run run' : Run} {job : Job} {a : Artifact}

/-! ### The directories that a step makes -/

/-- The directories that mods in memory need. -/
def passed (tmp : String) (mods : List Artifact) : Set Place :=
  {p | p ∈ Path.trail tmp ∧ ∃ a ∈ mods, a.isInMemory = true}

theorem passed_cons (tmp : String) (a : Artifact) (mods : List Artifact) :
    passed tmp (a :: mods) = passed tmp [a] ∪ passed tmp mods := by
  ext p
  show (_ ∧ ∃ b ∈ a :: mods, _) ↔ (_ ∧ ∃ b ∈ [a], _) ∨ (_ ∧ ∃ b ∈ mods, _)
  rw [List.exists_mem_cons_iff, List.exists_mem_cons_iff, ← and_or_left, or_assoc]
  simp only [List.not_mem_nil, false_and, exists_false, false_or]

theorem passed_of_mem {mods : List Artifact} (member : a ∈ mods) (memory : a.isInMemory = true) :
    passed tmp mods = Path.trail tmp :=
  Set.ext fun _ => and_iff_left ⟨a, member, memory⟩

theorem Placed.copied {fs files : Files} {input : String} {temporary : Bool}
    (placed : Placed tmp a fs files input temporary) (memory : a.isInMemory = true) :
    temporary = true ∧ ∃ c, a.source = .memory c ∧ a.copyToTemporary fs tmp = (files, .ok input) := by
  cases placed with
  | path source =>
    rw [Artifact.isInMemory, Artifact.path?, source] at memory
    exact nomatch memory
  | memory source copied => exact ⟨rfl, _, source, copied⟩

theorem Placed.same {fs files : Files} {input : String} {temporary : Bool}
    (placed : Placed tmp a fs files input temporary) (path : a.isInMemory = false) : files = fs := by
  cases placed with
  | path source => rfl
  | memory source copied =>
    rw [Artifact.isInMemory, Artifact.path?, source] at path
    exact nomatch path

theorem Placed.directories {fs files : Files} {input : String} {temporary : Bool}
    (placed : Placed tmp a fs files input temporary) :
    files.directories = fs.directories ∪ passed tmp [a] := by
  cases memory : a.isInMemory with
  | true =>
    obtain ⟨_, _, _, copied⟩ := placed.copied memory
    obtain ⟨fs₁, _, made, _, _, same⟩ := Artifact.numbered_of_copy copied
    rw [same, (Files.makeDirectories_eq_ok made).2, passed_of_mem List.mem_cons_self memory]
  | false =>
    have none : passed tmp [a] = ∅ := by
      refine Set.eq_empty_of_forall_notMem fun p ⟨_, b, member, memory'⟩ => ?_
      obtain rfl := List.mem_singleton.mp member
      exact nomatch memory.symm.trans memory'
    rw [placed.same memory, none, Set.union_empty]

theorem directories_of_stages {todo : List (ℕ × Artifact)}
    (h : (todo.forM fun p => stage tmp out p.1 p.2).run run = (.ok (), run')) :
    run'.files.directories = run.files.directories ∪ passed tmp (todo.map Prod.snd) := by
  induction todo generalizing run with
  | nil =>
    obtain ⟨_, rfl⟩ := run_pure_eq_ok.mp h
    have none : passed tmp [] = ∅ :=
      Set.eq_empty_of_forall_notMem fun p ⟨_, a, member, _⟩ => absurd member List.not_mem_nil
    rw [List.map_nil, none, Set.union_empty]
  | cons q todo ih =>
    obtain ⟨_, mid, staged, rest⟩ := run_bind_eq_ok.mp h
    rw [ih rest]
    obtain ⟨new, files, cleared, _, _, _, _, _, _, placed, removed, _, _, rfl⟩ := stage_eq_ok staged
    rw [Files.directories_removeIfThere removed, placed.directories, List.map_cons,
      passed_cons tmp q.2 (todo.map Prod.snd), Set.union_assoc]

/-- The directory for copies could be made when there were no others than at the start. -/
theorem first_copy {todo : List (ℕ × Artifact)}
    (h : (todo.forM fun p => stage tmp out p.1 p.2).run run = (.ok (), run'))
    (some : ∃ a ∈ todo.map Prod.snd, a.isInMemory = true) :
    ∃ fs fs₁ : Files, fs.directories = run.files.directories ∧ fs.makeDirectories tmp = (fs₁, .ok ()) := by
  induction todo generalizing run with
  | nil =>
    obtain ⟨_, member, _⟩ := some
    exact absurd member List.not_mem_nil
  | cons q todo ih =>
    obtain ⟨_, mid, staged, rest⟩ := run_bind_eq_ok.mp h
    obtain ⟨new, files, cleared, _, _, _, _, _, _, placed, removed, _, _, rfl⟩ := stage_eq_ok staged
    cases memory : q.2.isInMemory with
    | true =>
      obtain ⟨_, _, _, copied⟩ := placed.copied memory
      obtain ⟨fs₁, _, made, _⟩ := Artifact.numbered_of_copy copied
      exact ⟨run.files, fs₁, rfl, made⟩
    | false =>
      obtain ⟨fs, fs₁, same, made⟩ := ih rest (by
        obtain ⟨b, member, memory'⟩ := some
        rcases List.mem_cons.mp member with rfl | later
        · exact nomatch memory.symm.trans memory'
        · exact ⟨b, later, memory'⟩)
      refine ⟨fs, fs₁, same.trans ?_, made⟩
      rw [Files.directories_removeIfThere removed, placed.same memory]

/-- The directory for copies can be made at the start if no directory that there is in the end takes the
place of a file. -/
theorem copies_of_stages {m : Remapper} {selected : List (ℕ × Artifact)}
    (h : (selected.forM fun p => stage tmp out p.1 p.2).run { files := start, remapper := m } =
      (.ok (), run'))
    (clear : ∀ p ∈ run'.files.directories, ∀ c, start.node? p ≠ some (.file c))
    (some : ∃ a ∈ selected.map Prod.snd, a.isInMemory = true) :
    ∃ fs, start.makeDirectories tmp = (fs, .ok ()) ∧ fs.directories = run'.files.directories := by
  obtain ⟨fs, fs₁, same, made⟩ := first_copy h some
  obtain ⟨a, member, memory⟩ := some
  have equal : fs₁.directories = run'.files.directories := by
    rw [(Files.makeDirectories_eq_ok made).2, same, directories_of_stages h, passed_of_mem member memory]
  obtain ⟨fs₂, done, same₂⟩ :=
    Files.makeDirectories_again made (.inl same.symm) fun p inside => clear p (equal ▸ inside)
  exact ⟨fs₂, done, same₂.trans equal⟩

/-- All outputs are in one directory. -/
theorem parent_output (out : String) :
    ∃ directory, ∀ a : Artifact, Path.parent (Path.join out a.fileName) = directory := by
  obtain ⟨u, joined⟩ := toList_output out
  obtain ⟨directory, spec⟩ := Path.parent_append u
  refine ⟨directory, fun a => spec _ a.fileName.toList ?_ ?_ (joined a)⟩
  · obtain ⟨v, clear, text⟩ := toList_fileName a
    rw [text, List.mem_append, not_or]
    exact ⟨clear, by decide⟩
  · obtain ⟨v, _, text⟩ := toList_fileName a
    rw [text, List.length_append]
    exact Nat.lt_add_left _ (by decide)

theorem directories_of_produce {jar : OutputJar} (plain : Files.IsPlain job.output)
    (h : (produce job).run run = (.ok jar, run')) :
    ∃ made p, run.files.makeDirectories (Path.parent job.output) = (made, .ok ()) ∧
      run'.files.directories = made.directories ∧ made.locate job.output = .ok p ∧
      p ∉ made.directories := by
  obtain ⟨files, jar₀, jar₁, jar₂, _, _, created, _, _, _, rfl⟩ := produce_eq_ok h
  obtain ⟨_, _, _, located, _, there, _⟩ := OutputJar.create_eq_ok created
  obtain ⟨made, done, same⟩ := OutputJar.directories_create created
  refine ⟨made, jar₀.file.place, done, ?_, (Files.locate_of_directories plain same).mp located, ?_⟩
  · rw [Files.directories_updateOpen, same]
  · rw [← same, Files.mem_directories, there]
    exact nofun

theorem directories_of_productions (directory : String) {jobs : List Job} {jars : List OutputJar}
    (some : jobs ≠ []) (h : (jobs.mapM produce).run run = (.ok jars, run'))
    (plain : ∀ job ∈ jobs, Files.IsPlain job.output)
    (named : ∀ job ∈ jobs, Path.parent job.output = directory) :
    ∃ made, run.files.makeDirectories directory = (made, .ok ()) ∧
      run'.files.directories = made.directories ∧
      ∀ job ∈ jobs, ∃ p, made.locate job.output = .ok p ∧ p ∉ made.directories := by
  induction jobs generalizing run jars with
  | nil => exact absurd rfl some
  | cons job jobs ih =>
    obtain ⟨jar, mid, jars', first, rest, rfl⟩ := run_mapM_cons_eq_ok.mp h
    obtain ⟨here, others⟩ := List.forall_mem_cons.mp plain
    obtain ⟨own, names⟩ := List.forall_mem_cons.mp named
    obtain ⟨made, p, done, same, found, free⟩ := directories_of_produce here first
    rw [own] at done
    refine ⟨made, done, ?_⟩
    by_cases last : jobs = []
    · subst last
      obtain ⟨_, rfl⟩ := run_mapM_nil_eq_ok.mp rest
      exact ⟨same, List.forall_mem_singleton.mpr ⟨p, found, free⟩⟩
    · obtain ⟨made', done', same', all⟩ := ih last rest others names
      -- The directory is there already.
      have equal : made'.directories = made.directories := by
        rw [(Files.makeDirectories_eq_ok done').2, same, Set.union_eq_left]
        exact Files.trail_subset_of_isDirectory (Files.makeDirectories_eq_ok done).1
      refine ⟨same'.trans equal, List.forall_mem_cons.mpr ⟨⟨p, found, free⟩, fun job' member => ?_⟩⟩
      obtain ⟨p', found', free'⟩ := all job' member
      exact ⟨p', (Files.locate_of_directories (others job' member) equal).mp found', equal ▸ free'⟩

/-- The directory for outputs is made, and each output has a place there. -/
theorem outputs_of_productions {selected : List (ℕ × Artifact)} {jobs : List Job}
    {jars : List OutputJar} (follow : List.Forall₂ (Follows out) selected jobs)
    (nonempty : selected ≠ []) (h : (jobs.mapM produce).run run = (.ok jars, run')) :
    ∃ made, run'.files.directories = made.directories ∧ ∀ q ∈ selected,
      run.files.makeDirectories (Path.parent (Path.join out q.2.fileName)) = (made, .ok ()) ∧
        ∃ p, made.locate (Path.join out q.2.fileName) = .ok p ∧ p ∉ made.directories := by
  obtain ⟨directory, parents⟩ := parent_output out
  have named := output_of_follows follow
  have some : jobs ≠ [] := by
    rintro rfl
    exact nonempty (List.forall₂_nil_right_iff.mp follow)
  have plain : ∀ job ∈ jobs, Files.IsPlain job.output := by
    intro job member
    obtain ⟨a, output⟩ := named job member
    exact output ▸ isPlain_output out a
  have inside : ∀ job ∈ jobs, Path.parent job.output = directory := by
    intro job member
    obtain ⟨a, output⟩ := named job member
    rw [output, parents]
  obtain ⟨made, done, directories, places⟩ := directories_of_productions directory some h plain inside
  refine ⟨made, directories, fun q member => ⟨(parents q.2).symm ▸ done, ?_⟩⟩
  obtain ⟨job, there, follows⟩ := exists_of_mem_left follow member
  exact follows.output ▸ places job there

/-! ### Room for a batch -/

/-- Copies have places, and so have outputs, where no directory will be. The directories of `staged` are
there once all mods are staged, and those of `made` once all outputs have been started. -/
structure Room (start staged made : Files) (tmp out : String) (mods : List Artifact) : Prop where
  copies : (∃ a ∈ mods, a.isInMemory = true) → ∃ fs, start.makeDirectories tmp = (fs, .ok ()) ∧
    fs.directories = staged.directories
  still : staged.directories = start.directories ∪ passed tmp mods
  more : staged.directories ⊆ made.directories
  outputs : ∀ a ∈ mods, staged.makeDirectories (Path.parent (Path.join out a.fileName)) = (made, .ok ()) ∧
    ∃ p, made.locate (Path.join out a.fileName) = .ok p ∧ p ∉ made.directories
  clear : ∀ p ∈ made.directories, ∀ c, start.node? p ≠ some (.file c)
  places : ∃ places, List.Forall₂ (Artifact.Slot staged made.directories tmp)
    (mods.filter Artifact.isInMemory) places ∧ places.Nodup ∧
      ∀ p ∈ places, ∀ c, start.node? p ≠ some (.file c)

theorem Room.perm {staged made : Files} {mods mods' : List Artifact} (perm : mods.Perm mods')
    (room : Room start staged made tmp out mods) : Room start staged made tmp out mods' where
  copies some := by
    obtain ⟨a, member, memory⟩ := some
    exact room.copies ⟨a, perm.mem_iff.mpr member, memory⟩
  still := by
    have same : passed tmp mods = passed tmp mods' := by
      ext p
      exact and_congr_right fun _ => exists_congr fun a => and_congr_left fun _ => perm.mem_iff
    rw [← same]
    exact room.still
  more := room.more
  outputs a member := room.outputs a (perm.mem_iff.mpr member)
  clear := room.clear
  places := by
    obtain ⟨places, slots, distinct, free⟩ := room.places
    obtain ⟨places', slots', perm'⟩ :=
      List.perm_comp_forall₂ (perm.filter Artifact.isInMemory).symm slots
    exact ⟨places', slots', perm'.nodup_iff.mpr distinct, fun p member =>
      free p (perm'.mem_iff.mp member)⟩

/-- Where a batch that has been remapped has an output or a copy, there is a file. -/
theorem file_of_phases {ix : MappingIndex} {m : Remapper} {selected : List (ℕ × Artifact)}
    {staged last : Run}
    (h : (phases ix tmp out selected).run { files := start, remapper := m } = (.ok (), last))
    (outputs : (selected.map fun q => Path.join out q.2.fileName).Nodup)
    (stages : (selected.forM fun p => stage tmp out p.1 p.2).run { files := start, remapper := m } =
      (.ok (), staged)) (apart : Apart last.files staged.jobs) {p : Place}
    (here : last.AtOutput p ∨ last.AtTemporary p) : ∃ c, last.files.node? p = some (.file c) := by
  obtain ⟨staged', stages', spec⟩ := phases_spec h outputs (.refl _ last.files)
  obtain ⟨_, rfl⟩ := Prod.mk.inj (stages.symm.trans stages')
  obtain ⟨jobs, _, all⟩ := spec apart
  rcases here with ⟨job, member, _, found⟩ | ⟨job, member, _, _, found⟩
  · obtain ⟨_, _, _, _, _, _, _, _, read⟩ := all job (jobs ▸ member)
    exact ⟨_, Files.node?_of_read read found⟩
  · obtain ⟨_, _, _, _, _, _, _, whole, _⟩ := all job (jobs ▸ member)
    exact Jar.file_of_list whole found

/-- Where a batch ends with files, there is no directory in the end. So no directory that there is then
takes the place of a file at any time. -/
theorem clear_of_last {selected : List (ℕ × Artifact)} {last : Run}
    (settled : Settled start out selected last)
    (files : ∀ p, last.AtOutput p ∨ last.AtTemporary p → ∃ c, last.files.node? p = some (.file c))
    (before : Settled start out selected run) (grows : run.Grows last) {p : Place}
    (there : p ∈ last.files.directories) (c : Content) : run.files.node? p ≠ some (.file c) := by
  intro file
  have elsewhere : ¬(last.AtOutput p ∨ last.AtTemporary p) := by
    intro here
    obtain ⟨c', there'⟩ := files p here
    exact Files.not_mem_directories_of_file there' there
  obtain ⟨output, copy⟩ := not_or.mp elsewhere
  have old := (before.elsewhere p c (fun here => output (here.mono grows))
    (fun here => copy (here.mono grows)) id).mp file
  exact Files.not_mem_directories_of_file ((settled.elsewhere p c output copy id).mpr old) there

/-- A copy that a job has is a file. -/
theorem file_of_supplied {p : Place} (supplied : ∀ job ∈ run.jobs, Supplied start run job)
    (here : run.AtTemporary p) : ∃ c, run.files.node? p = some (.file c) := by
  obtain ⟨job, member, _, _, found⟩ := here
  obtain ⟨_, _, _, fed, _⟩ := supplied job member
  exact Jar.file_of_list fed.whole found

theorem slots_of_stages {final : Files} {selected todo : List (ℕ × Artifact)} {full : Set Place}
    (staging : Staging start out selected run) (members : ∀ q ∈ todo, q ∈ selected)
    (h : (todo.forM fun p => stage tmp out p.1 p.2).run run = (.ok (), run'))
    (later : Files.Keeps (fun _ => True) run'.files final) (apart : Apart final run'.jobs)
    (clear : ∀ before, Settled start out selected before → before.Grows run' →
      ∀ p ∈ full, ∀ c, before.files.node? p ≠ some (.file c))
    (outside : ∀ p, run'.AtTemporary p → p ∉ full) :
    ∃ places, List.Forall₂ (Artifact.Slot run'.files full tmp)
        ((todo.map Prod.snd).filter Artifact.isInMemory) places ∧ places.Nodup ∧
      ∀ p ∈ places, run'.AtTemporary p ∧ ¬run.AtTemporary p := by
  have all := directories_of_stages h
  induction todo generalizing run with
  | nil => exact ⟨[], .nil, List.nodup_nil, nofun⟩
  | cons q todo ih =>
    obtain ⟨mid, staged, rest, grows, grows', staging'⟩ := staging.cons members h later apart
    obtain ⟨places, slots, distinct, fresh⟩ := ih staging' (List.forall_mem_cons.mp members).2 rest
      (directories_of_stages rest)
    cases memory : q.2.isInMemory with
    | false =>
      refine ⟨places, ?_, distinct, fun p member => ⟨(fresh p member).1, fun here => ?_⟩⟩
      · rwa [List.map_cons, List.filter_cons_of_neg (by rw [memory]; exact Bool.false_ne_true)]
      · exact (fresh p member).2 (here.mono grows)
    | true =>
      obtain ⟨new, files, cleared, _, _, _, _, _, _, placed, removed, _, _, same⟩ :=
        stage_eq_ok staged
      obtain ⟨isTemporary, _, _, copied⟩ := placed.copied memory
      obtain ⟨plain, p, _, found, _, free, _⟩ := Artifact.copyToTemporary_eq_ok copied
      have directories : files.directories = run'.files.directories := by
        rw [all, placed.directories, passed_of_mem List.mem_cons_self memory,
          passed_of_mem (List.mem_map_of_mem List.mem_cons_self) memory]
      have here : mid.AtTemporary p := by
        rw [same]
        exact ⟨new, List.mem_append_right _ List.mem_cons_self, isTemporary, plain,
          (Files.locate_of_directories plain (Files.directories_removeIfThere removed)).mpr found⟩
      have new' : ¬run.AtTemporary p := by
        intro old
        obtain ⟨c, there⟩ := file_of_supplied staging.supplied old
        exact free c there
      have slot : Artifact.Slot run'.files full tmp q.2 p :=
        Artifact.slot_of_copy copied directories found (outside p (here.mono grows'))
          (clear run staging.settled (grows.trans grows'))
      refine ⟨p :: places, ?_, List.nodup_cons.mpr ⟨fun member => ?_, distinct⟩,
        List.forall_mem_cons.mpr ⟨⟨here.mono grows', new'⟩, fun p' member => ?_⟩⟩
      · rw [List.map_cons, List.filter_cons_of_pos memory]
        exact .cons slot slots
      · exact (fresh p member).2 here
      · exact ⟨(fresh p' member).1, fun old => (fresh p' member).2 (old.mono grows)⟩

/-- A batch that has been remapped had room. -/
theorem room_of_phases {ix : MappingIndex} {m : Remapper} {selected : List (ℕ × Artifact)} {last : Run}
    (h : (phases ix tmp out selected).run { files := start, remapper := m } = (.ok (), last))
    (nonempty : selected ≠ []) (outputs : (selected.map fun q => Path.join out q.2.fileName).Nodup)
    (apart : ∀ staged, (selected.forM fun p => stage tmp out p.1 p.2).run
      { files := start, remapper := m } = (.ok (), staged) → Apart last.files staged.jobs) :
    ∃ staged made, (selected.forM fun p => stage tmp out p.1 p.2).run
        { files := start, remapper := m } = (.ok (), staged) ∧
      Room start staged.files made tmp out (selected.map Prod.snd) := by
  obtain ⟨staged, jars, written, wideners, asked, stages, produces, _, _, _, grows₂, grows₃, _,
    grows₄⟩ := phases_steps h
  have settled : Settled start out selected { files := start, remapper := m } := settled_start start m
  obtain ⟨_, settledLast⟩ := (does_phases start out selected ix tmp).of_ok settled h
  obtain ⟨staged', stages', spec⟩ := phases_spec h outputs (.refl _ last.files)
  obtain ⟨_, rfl⟩ := Prod.mk.inj (stages.symm.trans stages')
  obtain ⟨jobs, follow, _⟩ := spec (apart staged stages)
  obtain ⟨grows₁, _⟩ := settled_of_all stages
  have grows : staged.Grows last :=
    ⟨grows₂.files.trans (grows₃.files.trans grows₄.files), fun job member => jobs ▸ member⟩
  have files : ∀ p, last.AtOutput p ∨ last.AtTemporary p → ∃ c, last.files.node? p = some (.file c) :=
    fun _ here => file_of_phases h outputs stages (apart staged stages) here
  obtain ⟨made, directories, places⟩ := outputs_of_productions follow nonempty produces
  have more : staged.files.directories ⊆ made.directories := by
    obtain ⟨q, member⟩ := List.exists_mem_of_ne_nil selected nonempty
    rw [(Files.makeDirectories_eq_ok (places q member).1).2]
    exact Set.subset_union_left
  have less : made.directories ⊆ last.files.directories :=
    directories.ge.trans (grows₃.files.trans grows₄.files).directories
  have clear : ∀ before, Settled start out selected before → before.Grows last →
      ∀ p ∈ made.directories, ∀ c, before.files.node? p ≠ some (.file c) :=
    fun before settled' grows' p inside =>
      clear_of_last settledLast files settled' grows' (less inside)
  have atStart := clear _ settled (grows₁.trans grows)
  obtain ⟨slots, fitted, distinct, fresh⟩ := slots_of_stages (.fresh start m) (fun _ member => member)
    stages grows.files (apart staged stages)
    (fun before settled' grows' => clear before settled' (grows'.trans grows))
    fun p here inside => by
      obtain ⟨c, there⟩ := files p (.inr (here.mono grows))
      exact Files.not_mem_directories_of_file there (less inside)
  -- A copy is put where no file was, since no input is where an output is.
  have free : ∀ p ∈ slots, ∀ c, start.node? p ≠ some (.file c) := by
    intro p member c old
    obtain ⟨here, _⟩ := fresh p member
    obtain ⟨k, there, _, found⟩ := settledLast.atOutput old (here.mono grows)
    obtain ⟨j, there', _, plain, found'⟩ := here
    exact apart staged stages j there' k (jobs ▸ there) p (grows.files.locate plain found') found
  exact ⟨staged, made, stages, {
    copies := copies_of_stages stages fun p inside => atStart p (more inside)
    still := directories_of_stages stages
    more := more
    outputs := fun a member => by
      obtain ⟨q, chosen, rfl⟩ := List.mem_map.mp member
      exact places q chosen
    clear := atStart
    places := ⟨slots, fitted, distinct, free⟩ }⟩

end Pipeline

end ModRemap
