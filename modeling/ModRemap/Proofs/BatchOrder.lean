import Mathlib
import ModRemap.Proofs.BatchCompletion
import ModRemap.Proofs.RepointedMods
import ModRemap.Proofs.SameHierarchy

/-! The order of a batch. What a mod becomes depends on its own jar and on the headers of all classes,
which are the same in every order as long as no class is in two jars; and there is room for the mods in
one order if there is in another one. So a batch comes to the same outputs in every order, provided that
no jar can be read only because of what the batch itself has made. -/

namespace ModRemap

namespace Files

variable {fs : Files} {path path' : String} {p : Place}

/-- Where a path leads, if it leads anywhere, is a matter of its steps. -/
theorem place_of_locate (found : fs.locate path = .ok p) :
    p = (Path.steps path).foldl Path.next [] :=
  (follow_eq_ok (follow_of_locate found)).1

theorem apart_of_steps (other : (Path.steps path).foldl Path.next [] ≠
    (Path.steps path').foldl Path.next []) (fs : Files) : fs.Apart path path' :=
  fun _ found found' => other ((place_of_locate found).symm.trans (place_of_locate found'))

end Files

/-- The headers of the classes in the jar of a mod. -/
def Artifact.Headers (fs : Files) (a : Artifact) (hs : List ClassHeader) : Prop :=
  ∃ c listed classes, a.jar fs = .ok c ∧ c.list = .ok listed ∧ Remapper.Registers listed classes hs

theorem Artifact.headers_unique (fs : Files) : Relator.RightUnique (Artifact.Headers fs) := by
  rintro a hs hs' ⟨c, listed, classes, jar, whole, registers⟩ ⟨c', listed', classes', jar', whole', registers'⟩
  obtain rfl := Except.ok.inj (jar.symm.trans jar')
  obtain rfl := Except.ok.inj (whole.symm.trans whole')
  exact (registers.unique registers').2

/-- The jar of a mod holds a class of this name. -/
def Artifact.Declares (fs : Files) (a : Artifact) (name : String) : Prop :=
  ∃ hs, a.Headers fs hs ∧ ∃ header ∈ hs, header.name = name

theorem Artifact.Headers.declares_iff {fs : Files} {a : Artifact} {hs : List ClassHeader} {name : String}
    (headers : a.Headers fs hs) : a.Declares fs name ↔ ∃ header ∈ hs, header.name = name := by
  constructor
  · rintro ⟨hs', headers', declared⟩
    obtain rfl := Artifact.headers_unique fs headers headers'
    exact declared
  · exact fun declared => ⟨hs, headers, declared⟩

namespace Pipeline

variable {start final : Files} {tmp out : String} {run run' last : Run} {selected : List (ℕ × Artifact)}
  {ix : MappingIndex} {artifacts artifacts' made : List Artifact} {classpath : List String} {fs fs' : Files}

/-! ### The classes that are registered -/

/-- Staging adds the headers of one jar after the other. -/
theorem hierarchy_of_stages {todo : List (ℕ × Artifact)} (staging : Staging start out selected run)
    (members : ∀ q ∈ todo, q ∈ selected)
    (h : (todo.forM fun p => stage tmp out p.1 p.2).run run = (.ok (), run'))
    (later : Files.Keeps (fun _ => True) run'.files final) (apart : Apart final run'.jobs)
    (given : ∀ q ∈ todo, ∃ c, q.2.jar start = .ok c) :
    ∃ jars, List.Forall₂ (Artifact.Headers start) (todo.map Prod.snd) jars ∧
      run'.remapper.index = run.remapper.index ∧
      run'.remapper.hierarchy = jars.foldl Hierarchy.add run.remapper.hierarchy := by
  induction todo generalizing run with
  | nil =>
    obtain ⟨_, rfl⟩ := run_pure_eq_ok.mp h
    exact ⟨[], .nil, rfl, rfl⟩
  | cons q todo ih =>
    obtain ⟨⟨c, jar⟩, given'⟩ := List.forall_mem_cons.mp given
    obtain ⟨mid, staged, rest, _, _, staging'⟩ := staging.cons members h later apart
    obtain ⟨jars, headers, index, hierarchy⟩ :=
      ih staging' (List.forall_mem_cons.mp members).2 rest given'
    obtain ⟨job, files, cleared, listed, classes, hs, artifact, _, _, _, _, whole, registers, rfl⟩ :=
      stage_eq_ok staged
    -- The jar that has just been read is the one that was there before.
    obtain ⟨listed', _, _, fed, known⟩ :=
      staging'.supplied job (List.mem_append_right _ List.mem_cons_self)
    obtain rfl := Except.ok.inj (whole.symm.trans fed.whole)
    have own : q.2.Headers start hs := ⟨c, listed, classes, jar, known c (artifact ▸ jar), registers⟩
    exact ⟨hs :: jars, .cons own headers, index, hierarchy⟩

/-- No class is in the jars of two mods. -/
def Unshared (fs : Files) (mods : List Artifact) : Prop :=
  mods.Pairwise fun a b => ∀ name, a.Declares fs name → ¬b.Declares fs name

theorem Unshared.perm {mods mods' : List Artifact} (unshared : Unshared fs mods)
    (perm : mods.Perm mods') : Unshared fs mods' :=
  List.Perm.pairwise perm unshared fun alone name there there' => alone name there' there

theorem unshared_headers {mods : List Artifact} {jars : List (List ClassHeader)}
    (headers : List.Forall₂ (Artifact.Headers fs) mods jars) (unshared : Unshared fs mods) :
    jars.Pairwise Hierarchy.Unshared := by
  induction headers with
  | nil => exact .nil
  | cons first others ih =>
    obtain ⟨alone, rest⟩ := List.pairwise_cons.mp unshared
    refine List.pairwise_cons.mpr ⟨fun jar member header there header' there' same => ?_, ih rest⟩
    obtain ⟨b, listed, own⟩ := exists_of_mem_right others member
    exact alone b listed header.name ⟨_, first, header, there, rfl⟩ ⟨jar, own, header', there', same.symm⟩

/-- The order in which jars are registered does not show. -/
theorem alike_of_headers {mods mods' : List Artifact} {jars jars' : List (List ClassHeader)}
    (perm : mods.Perm mods') (unshared : Unshared fs mods)
    (headers : List.Forall₂ (Artifact.Headers fs) mods jars)
    (headers' : List.Forall₂ (Artifact.Headers fs) mods' jars') (h : Hierarchy) :
    (jars.foldl Hierarchy.add h).Alike (jars'.foldl Hierarchy.add h) := by
  obtain ⟨jars'', headers'', same⟩ := List.perm_comp_forall₂ perm.symm headers
  obtain rfl := List.right_unique_forall₂' (Artifact.headers_unique fs) headers'' headers'
  exact Hierarchy.alike_of_perm same.symm (unshared_headers headers unshared) h

/-! ### One order and another one -/

theorem remap_of_phases {m : Remapper} {classes : ℕ} (some : selection artifacts ≠ [])
    (read : ({ index := ix } : Remapper).readClasspath fs classpath = .ok (m, classes))
    (result : (phases ix tmp out (selection artifacts)).run { files := fs, remapper := m } =
      (.ok (), run)) :
    remap (.some ix) classpath tmp out artifacts fs =
      (dropTemporaries run.jobs run.files, repoint artifacts run.jobs, .ok run.jobs.length) := by
  unfold remap
  split
  · exact nomatch ‹Option.some ix = none›
  · exact absurd ‹selection artifacts = []› some
  · rename_i _ _ ix' same _
    obtain rfl := Option.some.inj same
    rw [read]
    dsimp only
    rw [result]

theorem count_of_remap {artifacts' : List Artifact} {n : ℕ}
    (done : remap (some ix) classpath tmp out artifacts fs = (fs', artifacts', .ok n)) :
    n = (artifacts.filter Artifact.requiresRemap).length := by
  rw [← map_selection, List.length_map]
  by_cases none : selection artifacts = []
  · unfold remap at done
    rw [none] at done ⊢
    exact (Except.ok.inj (Prod.mk.inj (Prod.mk.inj done).2).2).symm
  · obtain ⟨m, classes, run, read, result, _⟩ := remap_eq_ok done none
    rw [remap_of_phases none read result] at done
    obtain ⟨staged, stages, jobs, _⟩ := exists_output result
    have count := Except.ok.inj (Prod.mk.inj (Prod.mk.inj done).2).2
    rw [← count, jobs, (follows_of_all stages).length_eq]

theorem alike_of_stages {m : Remapper} {selected' : List (ℕ × Artifact)}
    (perm : (selected.map Prod.snd).Perm (selected'.map Prod.snd))
    (unshared : Unshared fs (selected.map Prod.snd))
    (stages : (selected.forM fun p => stage tmp out p.1 p.2).run { files := fs, remapper := m } =
      (.ok (), run))
    (stages' : (selected'.forM fun p => stage tmp out p.1 p.2).run { files := fs, remapper := m } =
      (.ok (), run'))
    (apart : Apart run.files run.jobs) (apart' : Apart run'.files run'.jobs)
    (given : ∀ a ∈ selected.map Prod.snd, ∃ c, a.jar fs = .ok c) :
    run.remapper.resolver.Alike run'.remapper.resolver := by
  have given' : ∀ a ∈ selected'.map Prod.snd, ∃ c, a.jar fs = .ok c :=
    fun a member => given a (perm.mem_iff.mpr member)
  obtain ⟨jars, headers, index, hierarchy⟩ := hierarchy_of_stages (.fresh fs m)
    (fun _ member => member) stages (.refl _ run.files) apart fun q member => given q.2 (List.mem_map_of_mem member)
  obtain ⟨jars', headers', index', hierarchy'⟩ := hierarchy_of_stages (.fresh fs m)
    (fun _ member => member) stages' (.refl _ run'.files) apart' fun q member => given' q.2 (List.mem_map_of_mem member)
  refine ⟨index.trans index'.symm, ?_⟩
  have same := alike_of_headers perm unshared headers headers' m.hierarchy
  rw [← hierarchy, ← hierarchy'] at same
  exact same

theorem staged_eq {m : Remapper} {classes : ℕ}
    (read : ({ index := ix } : Remapper).readClasspath fs classpath = .ok (m, classes)) :
    staged ix classpath tmp out artifacts fs = (((selection artifacts).forM fun p =>
      stage tmp out p.1 p.2).run { files := fs, remapper := m }).2 := by
  rw [staged, read]

/-- In this order, no jar of a batch is where an output is put, and none can be read only because of
what the batch itself has made. -/
structure Undisturbed (ix : MappingIndex) (classpath : List String) (tmp out : String)
    (artifacts : List Artifact) (fs : Files) : Prop where
  apart : ∀ files, Apart files (staged ix classpath tmp out artifacts fs).jobs
  before : ∀ a ∈ artifacts.filter Artifact.requiresRemap, ∀ c,
    a.jar (staged ix classpath tmp out artifacts fs).files = .ok c → ∃ c', a.jar fs = .ok c'

/-- What a mod becomes in a batch. -/
def Makes (ix : MappingIndex) (r : Resolver) (fs : Files) (a : Artifact) (entries : List Entry) : Prop :=
  ∃ c listed classes hs, a.jar fs = .ok c ∧ c.list = .ok listed ∧
    Remapper.Registers listed classes hs ∧ output ix r a.metadata listed = .ok entries

theorem Makes.readable {r : Resolver} {a : Artifact} {entries : List Entry}
    (makes : Makes ix r fs a entries) : Readable fs a := by
  obtain ⟨c, listed, classes, hs, jar, whole, registers, _⟩ := makes
  exact ⟨c, listed, classes, hs, jar, whole, registers⟩

theorem Makes.output {r r' : Resolver} {a : Artifact} {entries : List Entry} {c : Content}
    {listed : List Listed} (makes : Makes ix r fs a entries) (alike : r.Alike r')
    (jar : a.jar fs = .ok c) (whole : c.list = .ok listed) :
    Pipeline.output ix r' a.metadata listed = .ok entries := by
  obtain ⟨c', listed', _, _, jar', whole', _, made⟩ := makes
  obtain rfl := Except.ok.inj (jar'.symm.trans jar)
  obtain rfl := Except.ok.inj (whole'.symm.trans whole)
  exact (output_eq_of_alike alike).symm.trans made

theorem Follows.jar {q : ℕ × Artifact} {job : Job} {files : Files} {listed : List Listed}
    (follows : Follows out q job) (whole : Jar.list files job.input = .ok listed) :
    ∃ c, q.2.jar files = .ok c := by
  cases source : q.2.source with
  | memory c => exact ⟨c, by rw [Artifact.jar, source]⟩
  | path path =>
    obtain ⟨c, read, _⟩ := Jar.list_eq_ok.mp whole
    rw [follows.input path source] at read
    exact ⟨c, by rw [Artifact.jar, source]; exact read⟩

theorem outputs_eq (artifacts : List Artifact) :
    ((artifacts.filter Artifact.requiresRemap).map fun a => Path.join out a.fileName) =
      (selection artifacts).map fun q => Path.join out q.2.fileName := by
  simp only [← map_selection, List.map_map, Function.comp_def]

theorem makes_of_remap {n : ℕ}
    (done : remap (some ix) classpath tmp out artifacts fs = (fs', artifacts', .ok n))
    (outputs : ((artifacts.filter Artifact.requiresRemap).map fun a =>
      Path.join out a.fileName).Nodup)
    (undisturbed : Undisturbed ix classpath tmp out artifacts fs) :
    ∀ a ∈ artifacts.filter Artifact.requiresRemap, ∃ entries,
      Makes ix (staged ix classpath tmp out artifacts fs).remapper.resolver fs a entries ∧
        fs'.read (Path.join out a.fileName) = .ok (.archive entries) := by
  intro a member
  rw [outputs_eq] at outputs
  obtain ⟨q, selects, rfl⟩ := List.mem_map.mp ((map_selection artifacts).symm ▸ member)
  obtain ⟨job, registered, artifact, listed, classes, hs, entries, fed, own, made, read⟩ :=
    output_of_remap done outputs (undisturbed.apart fs') q selects
  obtain ⟨m, _, run, classes', result, _⟩ := remap_eq_ok done (List.ne_nil_of_mem selects)
  obtain ⟨staged₁, stages, _⟩ := exists_output result
  have state : staged ix classpath tmp out artifacts fs = staged₁ := by rw [staged_eq classes', stages]
  rw [state] at registered
  obtain ⟨q', _, follows⟩ := exists_of_mem_right (follows_of_all stages) registered
  obtain ⟨c, jar⟩ := follows.jar fed.whole
  rw [← follows.artifact, artifact] at jar
  obtain ⟨c', jar'⟩ := undisturbed.before q.2 member c jar
  exact ⟨entries, ⟨c', listed, classes, hs, jar', own c' jar', fed.registers, made⟩, read⟩

/-- The phases come to an end in one order if they do in another one, and have then registered the same
classes. -/
theorem phases_of_perm {m : Remapper} {selected' : List (ℕ × Artifact)}
    (perm : (selected.map Prod.snd).Perm (selected'.map Prod.snd)) (some : selected ≠ [])
    (outputs : (selected.map fun q => Path.join out q.2.fileName).Nodup)
    (unshared : Unshared fs (selected.map Prod.snd))
    (stages : (selected.forM fun p => stage tmp out p.1 p.2).run { files := fs, remapper := m } =
      (.ok (), run))
    (result : (phases ix tmp out selected).run { files := fs, remapper := m } = (.ok (), last))
    (apart : ∀ files, Apart files run.jobs)
    (apart' : ∀ files, Apart files ((selected'.forM fun p => stage tmp out p.1 p.2).run
      { files := fs, remapper := m }).2.jobs)
    (makes : ∀ a ∈ selected.map Prod.snd, ∃ entries, Makes ix run.remapper.resolver fs a entries) :
    ∃ run' last', (selected'.forM fun p => stage tmp out p.1 p.2).run { files := fs, remapper := m } =
        (.ok (), run') ∧
      (phases ix tmp out selected').run { files := fs, remapper := m } = (.ok (), last') ∧
      run.remapper.resolver.Alike run'.remapper.resolver := by
  obtain ⟨staged, base, stages₁, room⟩ := room_of_phases result some outputs fun staged stages₁ => by
    obtain ⟨_, rfl⟩ := Prod.mk.inj (stages.symm.trans stages₁)
    exact apart last.files
  have outputs' : (selected'.map fun q => Path.join out q.2.fileName).Nodup := by
    have places := perm.map fun a => Path.join out a.fileName
    simp only [List.map_map, Function.comp_def] at places
    exact places.nodup_iff.mp outputs
  have readable : ∀ a ∈ selected.map Prod.snd, Readable fs a := by
    intro a member
    obtain ⟨entries, makes⟩ := makes a member
    exact makes.readable
  have given : ∀ a ∈ selected.map Prod.snd, ∃ c, a.jar fs = .ok c := by
    intro a member
    obtain ⟨c, _, _, _, jar, _⟩ := readable a member
    exact ⟨c, jar⟩
  have alike : ∀ run', (selected'.forM fun p => stage tmp out p.1 p.2).run
      { files := fs, remapper := m } = (.ok (), run') →
        run.remapper.resolver.Alike run'.remapper.resolver := by
    intro run' stages'
    rw [stages'] at apart'
    exact alike_of_stages perm unshared stages stages' (apart run.files) (apart' run'.files) given
  have among : ∀ q ∈ selected', q.2 ∈ selected.map Prod.snd :=
    fun q member => perm.mem_iff.mpr (List.mem_map_of_mem member)
  have computable : ∀ run', (selected'.forM fun p => stage tmp out p.1 p.2).run
      { files := fs, remapper := m } = (.ok (), run') → ∀ q ∈ selected', ∀ c listed,
        q.2.jar fs = .ok c → c.list = .ok listed →
          ∃ entries, output ix run'.remapper.resolver q.2.metadata listed = .ok entries := by
    intro run' stages' q member c listed jar whole
    obtain ⟨entries, makes⟩ := makes q.2 (among q member)
    exact ⟨entries, makes.output (alike run' stages') jar whole⟩
  obtain ⟨last', result'⟩ := phases_of_room (room.perm perm) outputs'
    (fun q member => readable q.2 (among q member)) apart' computable
  obtain ⟨run', stages', _⟩ := exists_output result'
  exact ⟨run', last', stages', result', alike run' stages'⟩

theorem remap_of_unselected (none : selection artifacts = []) :
    remap (some ix) classpath tmp out artifacts fs = (fs, artifacts, .ok 0) := by
  unfold remap
  rw [none]

/-- If one order comes to an end, so does another one, and the mods become the same. -/
theorem remap_of_perm {n : ℕ} (perm : artifacts.Perm artifacts')
    (outputs : ((artifacts.filter Artifact.requiresRemap).map fun a =>
      Path.join out a.fileName).Nodup)
    (unshared : Unshared fs (artifacts.filter Artifact.requiresRemap))
    (undisturbed : Undisturbed ix classpath tmp out artifacts fs)
    (undisturbed' : Undisturbed ix classpath tmp out artifacts' fs)
    (done : remap (some ix) classpath tmp out artifacts fs = (fs', made, .ok n)) :
    ∃ fs'' made', remap (some ix) classpath tmp out artifacts' fs = (fs'', made', .ok n) ∧
      ∀ a ∈ artifacts.filter Artifact.requiresRemap, ∃ entries,
        fs'.read (Path.join out a.fileName) = .ok (.archive entries) ∧
        fs''.read (Path.join out a.fileName) = .ok (.archive entries) := by
  have mods : (artifacts.filter Artifact.requiresRemap).Perm
      (artifacts'.filter Artifact.requiresRemap) := perm.filter _
  have count : n = (artifacts'.filter Artifact.requiresRemap).length :=
    (count_of_remap done).trans mods.length_eq
  by_cases none : selection artifacts = []
  · have nothing : artifacts.filter Artifact.requiresRemap = [] := by
      rw [← map_selection, none, List.map_nil]
    have nothing' : artifacts'.filter Artifact.requiresRemap = [] :=
      List.nil_perm.mp (nothing ▸ mods)
    have none' : selection artifacts' = [] := by
      rw [← map_selection] at nothing'
      exact List.map_eq_nil_iff.mp nothing'
    rw [nothing'] at count
    refine ⟨fs, artifacts', count ▸ remap_of_unselected none', fun a member => ?_⟩
    exact absurd (nothing ▸ member) List.not_mem_nil
  obtain ⟨m, classes, last, read, result, _⟩ := remap_eq_ok done none
  obtain ⟨run, stages, _⟩ := exists_output result
  have state : staged ix classpath tmp out artifacts fs = run := by rw [staged_eq read, stages]
  have makes := makes_of_remap done outputs undisturbed
  have apart := undisturbed.apart
  have apart' := undisturbed'.apart
  rw [state] at makes apart
  rw [staged_eq read] at apart'
  have chosen : ((selection artifacts).map Prod.snd).Perm ((selection artifacts').map Prod.snd) := by
    rwa [map_selection, map_selection]
  obtain ⟨run', last', stages', result', alike⟩ := phases_of_perm chosen none
    (outputs_eq artifacts ▸ outputs) ((map_selection artifacts).symm ▸ unshared) stages result apart
    apart' fun a member => by
      obtain ⟨entries, makes, _⟩ := makes a (map_selection artifacts ▸ member)
      exact ⟨entries, makes⟩
  have none' : selection artifacts' ≠ [] := by
    intro nothing
    rw [nothing, List.map_nil] at chosen
    exact none (List.map_eq_nil_iff.mp (List.perm_nil.mp chosen))
  have done' := remap_of_phases none' read result'
  have same := count_of_remap done'
  rw [← count] at same
  rw [same] at done'
  have outputs' : ((artifacts'.filter Artifact.requiresRemap).map fun a =>
      Path.join out a.fileName).Nodup := (mods.map _).nodup_iff.mp outputs
  have state' : staged ix classpath tmp out artifacts' fs = run' := by rw [staged_eq read, stages']
  refine ⟨_, _, done', fun a member => ?_⟩
  obtain ⟨entries, makes, written⟩ := makes a member
  obtain ⟨entries', ⟨c, listed, _, _, jar, whole, _, become⟩, written'⟩ :=
    makes_of_remap done' outputs' undisturbed' a (mods.mem_iff.mp member)
  have become' := makes.output alike jar whole
  rw [state', become'] at become
  obtain rfl := Except.ok.inj become
  exact ⟨entries, written, written'⟩

theorem apart_of_steps {jobs : List Job} (other : ∀ j ∈ jobs, ∀ k ∈ jobs,
    (Path.steps j.input).foldl Path.next [] ≠ (Path.steps k.output).foldl Path.next []) (files : Files) :
    Apart files jobs :=
  fun j hj k hk => Files.apart_of_steps (other j hj k hk) files

/-- It is enough that no input has the path of an output, and that every jar can be read at first. -/
theorem undisturbed_of_steps {jobs : List Job}
    (state : (staged ix classpath tmp out artifacts fs).jobs = jobs)
    (other : ∀ j ∈ jobs, ∀ k ∈ jobs, (Path.steps j.input).foldl Path.next [] ≠
      (Path.steps k.output).foldl Path.next [])
    (given : ∀ a ∈ artifacts.filter Artifact.requiresRemap, ∃ c, a.jar fs = .ok c) :
    Undisturbed ix classpath tmp out artifacts fs where
  apart files := by
    rw [state]
    exact apart_of_steps other files
  before a member _ _ := given a member

/-- The order of a batch does not show in what becomes of the mods. -/
theorem remap_perm {index : Option MappingIndex} (perm : artifacts.Perm artifacts')
    (outputs : ((artifacts.filter Artifact.requiresRemap).map fun a =>
      Path.join out a.fileName).Nodup)
    (unshared : Unshared fs (artifacts.filter Artifact.requiresRemap))
    (undisturbed : ∀ ix, index = some ix → Undisturbed ix classpath tmp out artifacts fs)
    (undisturbed' : ∀ ix, index = some ix → Undisturbed ix classpath tmp out artifacts' fs) :
    let first := remap index classpath tmp out artifacts fs
    let second := remap index classpath tmp out artifacts' fs
    (∀ n, first.2.2 = .ok n ↔ second.2.2 = .ok n) ∧ ∀ n, first.2.2 = .ok n →
      first.2.1 = artifacts.map (remapped index out) ∧
      second.2.1 = artifacts'.map (remapped index out) ∧
      (index.isSome → ∀ a ∈ artifacts.filter Artifact.requiresRemap, ∃ entries,
        first.1.read (Path.join out a.fileName) = .ok (.archive entries) ∧
        second.1.read (Path.join out a.fileName) = .ok (.archive entries)) := by
  rcases first : remap index classpath tmp out artifacts fs with ⟨fs₁, made, result⟩
  rcases second : remap index classpath tmp out artifacts' fs with ⟨fs₂, made', result'⟩
  dsimp only
  have mods : (artifacts.filter Artifact.requiresRemap).Perm
      (artifacts'.filter Artifact.requiresRemap) := perm.filter _
  have outputs' : ((artifacts'.filter Artifact.requiresRemap).map fun a =>
      Path.join out a.fileName).Nodup := (mods.map _).nodup_iff.mp outputs
  have success : ∀ n, result = .ok n ↔ result' = .ok n := by
    intro n
    cases index with
    | none =>
      have count : result = .ok 0 := (Prod.mk.inj (Prod.mk.inj first).2).2.symm
      have count' : result' = .ok 0 := (Prod.mk.inj (Prod.mk.inj second).2).2.symm
      rw [count, count']
    | some ix =>
      constructor
      · rintro rfl
        obtain ⟨_, _, again, _⟩ := remap_of_perm perm outputs unshared (undisturbed ix rfl)
          (undisturbed' ix rfl) first
        exact (Prod.mk.inj (Prod.mk.inj (second.symm.trans again)).2).2
      · rintro rfl
        obtain ⟨_, _, again, _⟩ := remap_of_perm perm.symm outputs' (unshared.perm mods)
          (undisturbed' ix rfl) (undisturbed ix rfl) second
        exact (Prod.mk.inj (Prod.mk.inj (first.symm.trans again)).2).2
  refine ⟨success, fun n done => ?_⟩
  obtain rfl := (success n).mp done
  subst done
  refine ⟨artifacts_of_remap first, artifacts_of_remap second, fun some a member => ?_⟩
  obtain ⟨ix, rfl⟩ := Option.isSome_iff_exists.mp some
  obtain ⟨_, _, again, same⟩ := remap_of_perm perm outputs unshared (undisturbed ix rfl)
    (undisturbed' ix rfl) first
  obtain ⟨rfl, _⟩ := Prod.mk.inj (second.symm.trans again)
  exact same a member

/-- A mod on disk and one in memory, each with a class. -/
theorem remap_perm_pair :
    let front : Bytes := [0xCA, 0xFE, 0xBA, 0xBE, 0, 0, 0, 52, 0, 3, 1, 0, 1]
    let back : Bytes := [7, 0, 1, 0, 0x21, 0, 2, 0, 0, 0, 0, 0, 0, 0, 0, 0, 0]
    let c : Entry := ⟨"c.class", front ++ [0x63] ++ back⟩
    let d : Entry := ⟨"d.class", front ++ [0x64] ++ back⟩
    let a : Artifact := {
      metadata := { id := "a", version := "1" }
      source := .path "mods/a.jar"
      requiresRemap := true }
    let b : Artifact := {
      metadata := { id := "b", version := "1" }
      source := .memory (.archive [d])
      requiresRemap := true }
    let fs : Files := { nodes := Dict.ofList [(["mods"], .directory),
      (["mods", "a.jar"], .file (.archive [c]))] }
    let ix : MappingIndex := ⟨"s", "t", ∅, ∅⟩
    [a, b].Perm [b, a] ∧
      (([a, b].filter Artifact.requiresRemap).map fun a => Path.join "out" a.fileName).Nodup ∧
      Unshared fs ([a, b].filter Artifact.requiresRemap) ∧
      Undisturbed ix [] "tmp" "out" [a, b] fs ∧ Undisturbed ix [] "tmp" "out" [b, a] fs ∧
      (remap (some ix) [] "tmp" "out" [b, a] fs).2.2 = .ok 2 ∧
      ∀ m ∈ [a, b], ∃ entries,
        (remap (some ix) [] "tmp" "out" [a, b] fs).1.read (Path.join "out" m.fileName) =
          .ok (.archive entries) ∧
        (remap (some ix) [] "tmp" "out" [b, a] fs).1.read (Path.join "out" m.fileName) =
          .ok (.archive entries) := by
  intro front back c d a b fs ix
  have perm : [a, b].Perm [b, a] := .swap b a []
  have selects : [a, b].filter Artifact.requiresRemap = [a, b] := rfl
  have outputs : (([a, b].filter Artifact.requiresRemap).map fun a =>
      Path.join "out" a.fileName).Nodup := by decide +kernel
  have first : a.jar fs = .ok (.archive [c]) := by decide +kernel
  have given : ∀ m ∈ [a, b], ∃ c, m.jar fs = .ok c :=
    List.forall_mem_cons.mpr ⟨⟨_, first⟩, List.forall_mem_singleton.mpr ⟨_, rfl⟩⟩
  have headers : a.Headers fs [⟨"c", none, []⟩] :=
    ⟨_, _, [c], first, rfl, by decide +kernel, by decide +kernel⟩
  have headers' : b.Headers fs [⟨"d", none, []⟩] :=
    ⟨_, _, [d], rfl, rfl, by decide +kernel, by decide +kernel⟩
  have unshared : Unshared fs ([a, b].filter Artifact.requiresRemap) := by
    refine List.pairwise_pair.mpr fun name there there' => ?_
    obtain ⟨header, member, rfl⟩ := headers.declares_iff.mp there
    obtain ⟨header', member', same⟩ := headers'.declares_iff.mp there'
    obtain rfl := List.mem_singleton.mp member
    obtain rfl := List.mem_singleton.mp member'
    exact absurd same (by decide)
  have jobs : (staged ix [] "tmp" "out" [a, b] fs).jobs =
      [⟨0, a, 0, "mods/a.jar", false, "out/a-1.jar"⟩,
        ⟨1, b, 1, "tmp/b-100000.jar", true, "out/b-1.jar"⟩] := by decide +kernel
  have jobs' : (staged ix [] "tmp" "out" [b, a] fs).jobs =
      [⟨0, b, 0, "tmp/b-100000.jar", true, "out/b-1.jar"⟩,
        ⟨1, a, 1, "mods/a.jar", false, "out/a-1.jar"⟩] := by decide +kernel
  have undisturbed : Undisturbed ix [] "tmp" "out" [a, b] fs :=
    undisturbed_of_steps jobs (by decide +kernel) given
  have undisturbed' : Undisturbed ix [] "tmp" "out" [b, a] fs :=
    undisturbed_of_steps jobs' (by decide +kernel) fun m member =>
      given m (perm.mem_iff.mpr member)
  have done : (remap (some ix) [] "tmp" "out" [a, b] fs).2.2 = .ok 2 := by decide +kernel
  obtain ⟨success, all⟩ := remap_perm perm outputs unshared
    (fun ix' (index : some ix = some ix') => Option.some.inj index ▸ undisturbed)
    (fun ix' (index : some ix = some ix') => Option.some.inj index ▸ undisturbed')
  obtain ⟨_, _, same⟩ := all 2 done
  exact ⟨perm, outputs, unshared, undisturbed, undisturbed', (success 2).mp done, same rfl⟩

/-- The jar of the first mod can be read only when the directory for copies is there, which the second
one makes. -/
theorem remap_order_shows :
    let a : Artifact := {
      metadata := { id := "a", version := "1" }
      source := .path "tmp/../mods/a.jar"
      requiresRemap := true }
    let b : Artifact := {
      metadata := { id := "b", version := "1" }
      source := .memory (.archive [⟨"u", [2]⟩])
      requiresRemap := true }
    let fs : Files := { nodes := Dict.ofList [(["mods"], .directory),
      (["mods", "a.jar"], .file (.archive [⟨"t", [1]⟩]))] }
    let ix : MappingIndex := ⟨"s", "t", ∅, ∅⟩
    [a, b].Perm [b, a] ∧
      (([a, b].filter Artifact.requiresRemap).map fun a => Path.join "out" a.fileName).Nodup ∧
      Unshared fs ([a, b].filter Artifact.requiresRemap) ∧
      (∀ files, Apart files (staged ix [] "tmp" "out" [a, b] fs).jobs) ∧
      (∀ files, Apart files (staged ix [] "tmp" "out" [b, a] fs).jobs) ∧
      (remap (some ix) [] "tmp" "out" [a, b] fs).2.2 = .error (.batch .io) ∧
      (remap (some ix) [] "tmp" "out" [b, a] fs).2.2 = .ok 2 := by
  intro a b fs ix
  have unshared : Unshared fs ([a, b].filter Artifact.requiresRemap) := by
    refine List.pairwise_pair.mpr fun name there _ => ?_
    -- At first there is no jar for the first mod.
    obtain ⟨hs, ⟨c, _, _, jar, _⟩, _⟩ := there
    have missing : a.jar fs = .error .notFound := by decide +kernel
    cases missing.symm.trans jar
  have jobs : (staged ix [] "tmp" "out" [a, b] fs).jobs =
      [⟨0, a, 0, "tmp/../mods/a.jar", false, "out/a-1.jar"⟩] := by decide +kernel
  have jobs' : (staged ix [] "tmp" "out" [b, a] fs).jobs =
      [⟨0, b, 0, "tmp/b-100000.jar", true, "out/b-1.jar"⟩,
        ⟨1, a, 1, "tmp/../mods/a.jar", false, "out/a-1.jar"⟩] := by decide +kernel
  refine ⟨.swap b a [], by decide +kernel, unshared, fun files => ?_, fun files => ?_,
    by decide +kernel, by decide +kernel⟩
  · rw [jobs]
    exact apart_of_steps (by decide +kernel) files
  · rw [jobs']
    exact apart_of_steps (by decide +kernel) files

end Pipeline

end ModRemap
