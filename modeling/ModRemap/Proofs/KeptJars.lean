import Mathlib
import ModRemap.Proofs.CompletedJars

/-! Jars that a batch keeps. It changes files at its outputs only, so a jar that is elsewhere stays, and
each remapped mod is at a file in the end. -/

namespace ModRemap

namespace Files

variable {fs fs' fs'' : Files} {path : String} {p : Place}

/-- Whatever is a file stays one. -/
structure Persists (fs fs' : Files) : Prop where
  keeps : Keeps (fun _ => True) fs fs'
  files : ∀ p c, fs.node? p = some (.file c) → ∃ c', fs'.node? p = some (.file c')

namespace Persists

theorem refl (fs : Files) : Persists fs fs := ⟨.refl _ fs, fun _ c there => ⟨c, there⟩⟩

theorem trans (h : Persists fs fs') (h' : Persists fs' fs'') : Persists fs fs'' := by
  refine ⟨h.keeps.trans h'.keeps, fun p c there => ?_⟩
  obtain ⟨c', there'⟩ := h.files p c there
  exact h'.files p c' there'

/-- The files change at one place only, where there is one afterwards. -/
theorem of_within {c : Content} (within : Within (· = p) fs fs')
    (there : fs'.node? p = some (.file c)) : Persists fs fs' := by
  refine ⟨within.toKeeps.forget, fun q c' old => ?_⟩
  by_cases here : q = p
  · exact ⟨c, here ▸ there⟩
  · exact ⟨c', (within.elsewhere q c' here).mpr old⟩

theorem updateOpen (fs : Files) (f : OpenFile) (change : Content → Content) :
    Persists fs (fs.updateOpen f change) := by
  cases there : fs.node? f.place with
  | none =>
    unfold Files.updateOpen
    rw [there]
    exact refl fs
  | some n =>
    cases n with
    | directory =>
      unfold Files.updateOpen
      rw [there]
      exact refl fs
    | file c =>
      by_cases turn : fs.turn f.place = f.turn
      · exact of_within (fs.updateOpen_within f change) (updateOpen_eq there turn change).1
      · unfold Files.updateOpen
        rw [there]
        dsimp only
        rw [if_neg turn]
        exact refl fs

theorem read (h : Persists fs fs') (there : ∃ c, fs.read path = .ok c) :
    ∃ c, fs'.read path = .ok c := by
  obtain ⟨c, read⟩ := there
  obtain ⟨p, found, node⟩ := read_eq_ok.mp read
  obtain ⟨c', node'⟩ := h.files p c node
  exact ⟨c', read_eq_ok.mpr ⟨p, h.keeps.locate (isPlain_of_file found node) found, node'⟩⟩

end Persists

end Files

namespace Pipeline

variable {fs₀ : Files} {out : String} {selected : List (ℕ × Artifact)} {run run' : Run} {job : Job}

/-- An output of the selected mods is at this place. -/
def Outputs (out : String) (selected : List (ℕ × Artifact)) (fs : Files) (p : Place) : Prop :=
  ∃ q ∈ selected, fs.locate (Path.join out q.2.fileName) = .ok p

/-- However many outputs are dropped with the temporary inputs, what is left differs from what there
was at the outputs only. -/
theorem Recoverable.keeps_drop (h : Settled fs₀ out selected run)
    (since : Files.Keeps (fun _ => True) fs₀ run.files) {dropped : List Job}
    (among : ∀ job ∈ dropped, job ∈ run.jobs) {fs' : Files}
    (drop : dropTemporaries run.jobs (dropOutputs dropped run.files) = fs') :
    Files.Keeps (Outputs out selected fs') fs₀ fs' := by
  have plain : ∀ path ∈ dropped.map Job.output, Files.IsPlain path := by
    intro path member
    obtain ⟨job, there, rfl⟩ := List.mem_map.mp member
    exact (h.named job (among job there)).plain
  obtain ⟨fs₁, first, keeps₁, _⟩ := removeAll_spec _ plain run.files
  obtain ⟨fs₂, second, keeps₂, _, gone₂⟩ := removeAll_spec _ h.isPlain_temporaries fs₁
  obtain rfl : fs₂ = fs' := by rw [← drop, dropTemporaries, dropOutputs, first, second]
  have later : Files.Keeps (fun _ => True) run.files fs₂ := keeps₁.forget.trans keeps₂.forget
  refine ⟨(since.trans later).directories, fun p c outside => ?_⟩
  have output : ¬run.AtOutput p := by
    rintro ⟨job, there, plain, found⟩
    obtain ⟨q, member, named⟩ := (h.named job there).output
    exact outside ⟨q, member, named ▸ later.locate plain found⟩
  have kept : fs₁.node? p = some (.file c) ↔ run.files.node? p = some (.file c) := by
    refine keeps₁.elsewhere p c fun dropped => ?_
    obtain ⟨path, member, found⟩ := dropped
    obtain ⟨job, there, rfl⟩ := List.mem_map.mp member
    obtain ⟨q, selects, named⟩ := (h.named job (among job there)).output
    have plain := (h.named job (among job there)).plain
    exact outside ⟨q, selects, named ▸ keeps₂.locate plain found⟩
  by_cases temporary : run.AtTemporary p
  · -- The copy that was here is gone, and it took no place of a file.
    obtain ⟨job, there, isTemporary, plain, found⟩ := temporary
    have listed : job.input ∈ (run.jobs.filter Job.temporary).map Job.input :=
      List.mem_map_of_mem (List.mem_filter.mpr ⟨there, isTemporary⟩)
    refine ⟨fun left => absurd left (gone₂ _ listed p c (keeps₁.locate plain found)), fun old => ?_⟩
    exact absurd (h.atOutput old ⟨job, there, isTemporary, plain, found⟩) output
  · refine (keeps₂.elsewhere p c fun dropped => temporary ?_).trans
      (kept.trans (h.elsewhere p c output temporary id))
    obtain ⟨path, member, found⟩ := dropped
    obtain ⟨job, listed, rfl⟩ := List.mem_map.mp member
    obtain ⟨there, isTemporary⟩ := List.mem_filter.mp listed
    obtain ⟨q, located, _⟩ := h.temporary job there isTemporary
    have plain := (h.named job there).temporary isTemporary
    obtain rfl := Except.ok.inj ((later.locate plain located).symm.trans found)
    exact ⟨job, there, isTemporary, plain, located⟩

/-! From the first output on no file vanishes. -/

theorem produce_persists {jar : OutputJar} (h : (produce job).run run = (.ok jar, run')) :
    run.files.Persists run'.files ∧ (∃ c, run'.files.read job.output = .ok c) ∧
      run'.jobs = run.jobs := by
  obtain ⟨files, jar₀, jar₁, jar₂, copied, applied, created, _, _, _, rfl⟩ := produce_eq_ok h
  obtain ⟨_, _, _, found, within, there, _⟩ := OutputJar.create_eq_ok created
  have updates := Files.Persists.updateOpen files jar₂.file
    (Content.extend jar₂.flushed jar₂.entries)
  exact ⟨(Files.Persists.of_within within there).trans updates,
    updates.read ⟨_, Files.read_eq_ok.mpr ⟨_, found, there⟩⟩, rfl⟩

theorem productions_persist {jobs : List Job} {jars : List OutputJar}
    (h : (jobs.mapM produce).run run = (.ok jars, run')) :
    run.files.Persists run'.files ∧ (∀ job ∈ jobs, ∃ c, run'.files.read job.output = .ok c) ∧
      run'.jobs = run.jobs := by
  induction jobs generalizing run jars with
  | nil =>
    obtain ⟨_, rfl⟩ := run_mapM_nil_eq_ok.mp h
    exact ⟨.refl _, fun _ member => absurd member List.not_mem_nil, rfl⟩
  | cons job jobs ih =>
    obtain ⟨jar, mid, jars', first, rest, _⟩ := run_mapM_cons_eq_ok.mp h
    obtain ⟨persists, there, same⟩ := produce_persists first
    obtain ⟨persists', others, same'⟩ := ih rest
    exact ⟨persists.trans persists', List.forall_mem_cons.mpr ⟨persists'.read there, others⟩,
      same'.trans same⟩

/-- A question about a jar, of which the answer is used without further changes. -/
theorem ask_eq_ok {α β ε : Type} {wrap : ε → RemapError} {ask : Files → Except ε α}
    {f : α → Batch β} {b : β} (still : ∀ a run run', (f a).run run = (.ok b, run') → run' = run)
    (h : (askFiles wrap ask >>= f).run run = (.ok b, run')) : run' = run := by
  obtain ⟨a, mid, asked, done⟩ := run_bind_eq_ok.mp h
  obtain ⟨_, rfl⟩ := run_askFiles_eq_ok.mp asked
  exact still a _ _ done

theorem widener_still {ix : MappingIndex} {wide : Option (String × Bytes)}
    (h : (widener ix job).run run = (.ok wide, run')) : run' = run := by
  unfold widener at h
  split at h
  · exact (run_pure_eq_ok.mp h).2.symm
  · refine ask_eq_ok (fun found run run' h => ?_) h
    split at h
    · exact absurd h (run_throw_ne_ok _)
    · split at h
      · exact (run_pure_eq_ok.mp h).2.symm
      · exact absurd h (run_throw_ne_ok _)

theorem declaredRefmap_still {config : String} {found : Option String}
    (h : (declaredRefmap job config).run run = (.ok found, run')) : run' = run := by
  refine ask_eq_ok (fun found run run' h => ?_) h
  split at h
  · exact (run_pure_eq_ok.mp h).2.symm
  · split at h
    · exact absurd h (run_throw_ne_ok _)
    · exact (run_pure_eq_ok.mp h).2.symm

theorem remapRefmap_still {ix : MappingIndex} {path : String} {made : Option (String × Bytes)}
    (h : (remapRefmap ix job path).run run = (.ok made, run')) : run' = run := by
  refine ask_eq_ok (fun found run run' h => ?_) h
  split at h
  · exact (run_pure_eq_ok.mp h).2.symm
  · split at h
    · exact absurd h (run_throw_ne_ok _)
    · exact (run_pure_eq_ok.mp h).2.symm

theorem mapM_still {α β : Type} {f : α → Batch β} {as : List α} {bs : List β}
    (each : ∀ a b run run', (f a).run run = (.ok b, run') → run' = run)
    (h : (as.mapM f).run run = (.ok bs, run')) : run' = run :=
  (run_mapM_eq_ok (R := fun _ _ => True)
    (fun a _ b _ done => ⟨each a b _ _ done, trivial⟩) h).1

theorem complete_persists {ix : MappingIndex} {jar : OutputJar} {wide : Option (String × Bytes)}
    (h : (complete ix job jar wide).run run = (.ok (), run')) :
    run.files.Persists run'.files ∧ run'.jobs = run.jobs := by
  obtain ⟨_, closed, modified, h⟩ := run_bind_eq_ok.mp h
  obtain rfl := run_modify_eq_ok.mp modified
  obtain ⟨declared, mid, asked, h⟩ := run_bind_eq_ok.mp h
  obtain rfl := mapM_still (fun _ _ _ _ => declaredRefmap_still) asked
  obtain ⟨refmaps, mid', made, h⟩ := run_bind_eq_ok.mp h
  obtain rfl := mapM_still (fun _ _ _ _ => remapRefmap_still) made
  obtain ⟨files, overwritten, rfl⟩ := run_changeFiles_eq_ok.mp h
  have closes := Files.Persists.updateOpen run.files jar.file
    (Content.close jar.flushed jar.entries)
  refine ⟨closes.trans ?_, rfl⟩
  rcases Jar.overwrite_eq_ok overwritten with ⟨_, rfl⟩ | ⟨_, _, _, _, replaced⟩
  · exact .refl _
  · obtain ⟨_, p, _, within, there⟩ := Files.replace_eq_ok replaced
    exact .of_within within there

theorem completions_persist {ix : MappingIndex}
    {ts : List (Job × OutputJar × Option (String × Bytes))}
    (h : (ts.forM fun t => complete ix t.1 t.2.1 t.2.2).run run = (.ok (), run')) :
    run.files.Persists run'.files ∧ run'.jobs = run.jobs := by
  induction ts generalizing run with
  | nil =>
    obtain ⟨_, rfl⟩ := run_pure_eq_ok.mp h
    exact ⟨.refl _, rfl⟩
  | cons t ts ih =>
    obtain ⟨_, mid, first, rest⟩ := run_bind_eq_ok.mp h
    obtain ⟨persists, same⟩ := complete_persists first
    obtain ⟨persists', same'⟩ := ih rest
    exact ⟨persists.trans persists', same'.trans same⟩

/-- Where all phases succeed, each job has a file at its output. -/
theorem exists_output {ix : MappingIndex} {tmp : String}
    (h : (phases ix tmp out selected).run run = (.ok (), run')) :
    ∃ staged, (selected.forM fun p => stage tmp out p.1 p.2).run run = (.ok (), staged) ∧
      run'.jobs = staged.jobs ∧ ∀ job ∈ run'.jobs, ∃ c, run'.files.read job.output = .ok c := by
  obtain ⟨staged, jars, written, wideners, asked, stages, produces, asks, completes⟩ := phases_eq_ok h
  obtain ⟨_, outputs, same⟩ := productions_persist produces
  obtain rfl := mapM_still (fun _ _ _ _ => widener_still) asks
  obtain ⟨persists, same'⟩ := completions_persist completes
  have jobs : run'.jobs = staged.jobs := same'.trans same
  exact ⟨staged, stages, jobs, fun job there => persists.read (outputs job (jobs ▸ there))⟩

theorem mem_repoint {artifacts : List Artifact} {jobs : List Job} {a : Artifact}
    (member : a ∈ repoint artifacts jobs) :
    a ∈ artifacts ∨ ∃ job ∈ jobs, a.source = .path job.output := by
  induction jobs generalizing artifacts with
  | nil => exact .inl member
  | cons job jobs ih =>
    rcases ih member with before | ⟨job', there, source⟩
    · obtain ⟨i, inside⟩ := List.getElem?_of_mem before
      rw [List.getElem?_modify] at inside
      obtain ⟨a', found, rfl⟩ := Option.map_eq_some_iff.mp inside
      have old := List.mem_of_getElem? found
      split_ifs
      · exact .inr ⟨job, List.mem_cons_self, rfl⟩
      · exact .inl old
    · exact .inr ⟨job', List.mem_cons_of_mem job there, source⟩

variable {index : Option MappingIndex} {classpath : List String} {tmp : String}
  {artifacts artifacts' : List Artifact} {fs fs' : Files} {result : Except RemapError ℕ}

/-- Whatever comes of a batch, it changes no file that is not at an output. -/
theorem keeps_of_remap
    (h : remap index classpath tmp out artifacts fs = (fs', artifacts', result)) :
    Files.Keeps (Outputs out (selection artifacts) fs') fs fs' := by
  unfold remap at h
  split at h
  · exact (Prod.mk.inj h).1 ▸ .refl _ fs
  · exact (Prod.mk.inj h).1 ▸ .refl _ fs
  · split at h
    · exact (Prod.mk.inj h).1 ▸ .refl _ fs
    · rename_i ix _ _ remapper _ _
      obtain ⟨grows, after⟩ := does_phases fs out (selection artifacts) ix tmp
        { files := fs, remapper } (settled_start fs remapper)
      rcases done : (phases ix tmp out (selection artifacts)).run { files := fs, remapper } with
        ⟨e | u, run⟩
      · rw [done] at h grows after
        exact Recoverable.keeps_drop after grows.files (fun _ there => there) (Prod.mk.inj h).1
      · rw [done] at h grows after
        have among : ∀ job ∈ ([] : List Job), job ∈ run.jobs :=
          fun _ member => absurd member List.not_mem_nil
        exact Recoverable.keeps_drop after grows.files among (Prod.mk.inj h).1

/-- Each mod has its jar after a batch, whether it succeeds or not, and the jars there were are as they
were. No jar may be where an output is to be, and no copy of one that was in memory. -/
theorem jar_of_remap
    (h : remap index classpath tmp out artifacts fs = (fs', artifacts', result))
    (given : ∀ a ∈ artifacts, ∃ c, a.jar fs = .ok c)
    (apart : ∀ a ∈ artifacts, ∀ path, a.path? = some path → ∀ q ∈ selection artifacts,
      fs'.Apart path (Path.join out q.2.fileName))
    (copies : ∀ ix, index = some ix → ∀ job ∈ (staged ix classpath tmp out artifacts fs).jobs,
      job.temporary = true → ∀ q ∈ selection artifacts,
        fs'.Apart job.input (Path.join out q.2.fileName)) :
    (∀ a ∈ artifacts, a.jar fs' = a.jar fs) ∧ ∀ a ∈ artifacts', ∃ c, a.jar fs' = .ok c := by
  have keeps := keeps_of_remap h
  have kept (a : Artifact) (member : a ∈ artifacts) : a.jar fs' = a.jar fs := by
    obtain ⟨c, jar⟩ := given a member
    cases source : a.source with
    | memory c' => rw [Artifact.jar, Artifact.jar, source]
    | path path =>
      have path? : a.path? = some path := by rw [Artifact.path?, source]
      rw [Artifact.jar, source] at jar
      rw [Artifact.jar, Artifact.jar, source]
      refine (keeps.read jar fun p found output => ?_).trans jar.symm
      obtain ⟨q, selects, found'⟩ := output
      exact apart a member path path? q selects p found found'
  refine ⟨kept, fun a member => ?_⟩
  have before (old : a ∈ artifacts) : ∃ c, a.jar fs' = .ok c := kept a old ▸ given a old
  unfold remap at h
  split at h
  · exact before ((Prod.mk.inj (Prod.mk.inj h).2).1 ▸ member)
  · exact before ((Prod.mk.inj (Prod.mk.inj h).2).1 ▸ member)
  split at h
  · exact before ((Prod.mk.inj (Prod.mk.inj h).2).1 ▸ member)
  rename_i ix _ _ remapper _ classes
  rcases done : (phases ix tmp out (selection artifacts)).run { files := fs, remapper } with
    ⟨e | u, run⟩
  · rw [done] at h
    exact before ((Prod.mk.inj (Prod.mk.inj h).2).1 ▸ member)
  rw [done] at h
  obtain ⟨dropped, rest⟩ := Prod.mk.inj h
  obtain ⟨rfl, _⟩ := Prod.mk.inj rest
  obtain ⟨_, settled⟩ := (does_phases fs out (selection artifacts) ix tmp).of_ok
    (settled_start fs remapper) done
  obtain ⟨run₁, stages, jobs, outputs⟩ := exists_output done
  have state : staged ix classpath tmp out artifacts fs = run₁ := by
    rw [staged, classes]
    exact congrArg Prod.snd stages
  rcases mem_repoint member with old | ⟨job, there, source⟩
  · exact before old
  rw [Artifact.jar, source]
  obtain ⟨c, read⟩ := outputs job there
  obtain ⟨q, selects, named⟩ := (settled.named job there).output
  obtain ⟨fs₂, folded, drops, _⟩ := removeAll_spec _ settled.isPlain_temporaries run.files
  obtain rfl : fs₂ = fs' := folded.symm.trans dropped
  refine ⟨c, drops.read read fun p found dropped => ?_⟩
  obtain ⟨path, listed, found'⟩ := dropped
  obtain ⟨copy, inside, rfl⟩ := List.mem_map.mp listed
  obtain ⟨inside, isTemporary⟩ := List.mem_filter.mp inside
  have registered : copy ∈ (staged ix classpath tmp out artifacts fs).jobs := by
    rw [state, ← jobs]
    exact inside
  exact copies ix rfl copy registered isTemporary q selects p found' (named ▸ found)

/-- One mod is on disk, the other is copied there. -/
theorem jar_of_remap_pair :
    let a : Artifact := {
      metadata := { id := "a", version := "1" }
      source := .path "mods/a.jar"
      requiresRemap := true }
    let b : Artifact := {
      metadata := { id := "b", version := "1" }
      source := .memory (.archive [⟨"u", [2]⟩])
      requiresRemap := true }
    let fs : Files := { nodes := Dict.ofList [(["mods"], .directory),
      (["mods", "a.jar"], .file (.archive [⟨"t", [1]⟩]))] }
    ∃ fs', remap (some ⟨"s", "t", ∅, ∅⟩) [] "tmp" "out" [a, b] fs =
        (fs', [a.setPath "out/a-1.jar", b.setPath "out/b-1.jar"], .ok 2) ∧
      fs'.read "mods/a.jar" = .ok (.archive [⟨"t", [1]⟩]) ∧
      (∃ c, fs'.read "out/a-1.jar" = .ok c) ∧ ∃ c, fs'.read "out/b-1.jar" = .ok c := by
  intro a b fs
  let fs' : Files := {
    nodes := Dict.ofList [(["mods"], .directory), (["mods", "a.jar"], .file (.archive [⟨"t", [1]⟩])),
      (["tmp"], .directory), (["out"], .directory),
      (["out", "a-1.jar"], .file (.archive [⟨"t", [1]⟩])),
      (["out", "b-1.jar"], .file (.archive [⟨"u", [2]⟩]))]
    turns := Dict.ofList [(["tmp", "b-100000.jar"], 1)] }
  have done : remap (some ⟨"s", "t", ∅, ∅⟩) [] "tmp" "out" [a, b] fs =
      (fs', [a.setPath "out/a-1.jar", b.setPath "out/b-1.jar"], .ok 2) := by decide +kernel
  have outputs : ∀ q ∈ selection [a, b], Path.join "out" q.2.fileName = "out/a-1.jar" ∨
      Path.join "out" q.2.fileName = "out/b-1.jar" := by decide +kernel
  have first : fs'.locate "out/a-1.jar" = .ok ["out", "a-1.jar"] := by decide +kernel
  have second : fs'.locate "out/b-1.jar" = .ok ["out", "b-1.jar"] := by decide +kernel
  have elsewhere {path : String} {p : Place} (found : fs'.locate path = .ok p)
      (other : p ≠ ["out", "a-1.jar"] ∧ p ≠ ["out", "b-1.jar"]) :
      ∀ q ∈ selection [a, b], fs'.Apart path (Path.join "out" q.2.fileName) := by
    intro q member
    rcases outputs q member with output | output
    · rw [output]
      exact Files.apart_of_locate found first other.1
    · rw [output]
      exact Files.apart_of_locate found second other.2
  have jobs : (staged ⟨"s", "t", ∅, ∅⟩ [] "tmp" "out" [a, b] fs).jobs =
      [⟨0, a, 0, "mods/a.jar", false, "out/a-1.jar"⟩,
        ⟨1, b, 1, "tmp/b-100000.jar", true, "out/b-1.jar"⟩] := by decide +kernel
  have given : ∀ m ∈ [a, b], ∃ c, m.jar fs = .ok c := by
    refine List.forall_mem_cons.mpr ⟨⟨.archive [⟨"t", [1]⟩], by decide +kernel⟩, ?_⟩
    exact List.forall_mem_singleton.mpr ⟨_, rfl⟩
  have apart : ∀ m ∈ [a, b], ∀ path, m.path? = some path → ∀ q ∈ selection [a, b],
      fs'.Apart path (Path.join "out" q.2.fileName) := by
    intro m member path known
    have source : path = "mods/a.jar" := by
      rcases List.mem_pair.mp member with rfl | rfl
      · exact (Option.some.inj known).symm
      · exact nomatch known
    exact source ▸ elsewhere (p := ["mods", "a.jar"]) (by decide +kernel) (by decide)
  obtain ⟨kept, all⟩ := jar_of_remap done given apart fun ix index job there copied => by
    obtain rfl := Option.some.inj index
    rw [jobs] at there
    rcases List.mem_pair.mp there with rfl | rfl
    · exact nomatch copied
    · exact elsewhere (p := ["tmp", "b-100000.jar"]) (by decide +kernel) (by decide)
  obtain ⟨there, others⟩ := List.forall_mem_cons.mp all
  have input : a.jar fs' = .ok (.archive [⟨"t", [1]⟩]) :=
    (kept a List.mem_cons_self).trans (by decide +kernel)
  exact ⟨fs', done, input, there, others _ List.mem_cons_self⟩

/-- The second of two runs clears the jar that the first one has made, before it reads it. -/
theorem jar_lost_of_remap_again :
    let a : Artifact := {
      metadata := { id := "m", version := "1" }
      source := .memory (.archive [⟨"t", [1]⟩])
      requiresRemap := true }
    let b := a.setPath "out/m-1.jar"
    ∃ fs fs', remap (some ⟨"s", "t", ∅, ∅⟩) [] "tmp" "out" [a] ∅ = (fs, [b], .ok 1) ∧
      b.jar fs = .ok (.archive [⟨"t", [1]⟩]) ∧
      remap (some ⟨"s", "t", ∅, ∅⟩) [] "tmp" "out" [b] fs = (fs', [b], .error (.batch .io)) ∧
      b.jar fs' = .error .notFound := by
  intro a b
  let fs : Files := {
    nodes := Dict.ofList [(["tmp"], .directory), (["out"], .directory),
      (["out", "m-1.jar"], .file (.archive [⟨"t", [1]⟩]))]
    turns := Dict.ofList [(["tmp", "m-100000.jar"], 1)] }
  let fs' : Files := {
    nodes := Dict.ofList [(["tmp"], .directory), (["out"], .directory)]
    turns := Dict.ofList [(["tmp", "m-100000.jar"], 1), (["out", "m-1.jar"], 1)] }
  exact ⟨fs, fs', by decide +kernel, by decide +kernel, by decide +kernel, by decide +kernel⟩

end Pipeline

end ModRemap
