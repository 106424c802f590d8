import Mathlib
import ModRemap.Loader.ModLoader
import ModRemap.Proofs.RepointedMods

/-! The jars of the mods that a load moves: those that are remapped, and those that are written out
because they are in memory. All of them go to one directory, each under the file name of its mod, so they
stay apart exactly where the file names do. -/

namespace ModRemap

namespace Artifact

variable {a b : Artifact} {fs fs' : Files} {directory : String}

theorem join_fileName_inj (same : Path.join directory a.fileName = Path.join directory b.fileName) :
    a.fileName = b.fileName := by
  obtain ⟨u, joined⟩ := Pipeline.toList_output directory
  have texts := congrArg String.toList same
  rw [joined, joined] at texts
  exact String.toList_inj.mp (List.append_cancel_left texts)

/-- A jar that is written out replaces what was under its name, and nothing else. -/
theorem copyTo_eq_ok {target : String} (h : a.copyTo fs directory = (fs', .ok target)) :
    target = Path.join directory a.fileName ∧ ∃ p, fs'.locate target = .ok p ∧
      Files.Within (· = p) fs fs' ∧ ∀ jar, a.source = .memory jar → fs'.read target = .ok jar := by
  rw [← copy_false] at h
  obtain ⟨fs₁, prepared, filled⟩ := copy_eq_ok.mp h
  obtain ⟨_, name, _, named, whole, _⟩ := prepare_eq_ok.mp prepared
  rw [copyName_false] at named
  obtain rfl : a.fileName = name := Except.ok.inj named
  obtain ⟨plain, p, found, emptied, _⟩ := prepare_place prepared
  obtain ⟨_, q, c, found', within, there, content⟩ := fill_eq_ok filled
  obtain rfl := Except.ok.inj (found.symm.trans found')
  have located := within.toKeeps.locate plain found
  refine ⟨whole, p, located, emptied.trans within, fun jar source => ?_⟩
  obtain rfl := content jar source
  exact Files.read_eq_ok.mpr ⟨p, located, there⟩

/-- In memory, and not one of the host's. -/
def isLoose (a : Artifact) : Bool := a.path?.isNone && !a.builtin

/-- A mod once it has been written out, if it has to be. -/
def settled (directory : String) (a : Artifact) : Artifact :=
  if a.isLoose then a.setPath (Path.join directory a.fileName) else a

end Artifact

namespace ModLoader

variable {σ ι : Type} {loader loader' : ModLoader σ ι} {fs fs' : Files} {artifacts : List Artifact}

/-- The mods that are written out go to these places. -/
def Extractions (directory : String) (artifacts : List Artifact) (fs : Files) (p : Place) : Prop :=
  ∃ a ∈ artifacts, a.isLoose = true ∧ fs.locate (Path.join directory a.fileName) = .ok p

theorem Extractions.cons {directory : String} {p : Place} (h : Extractions directory artifacts fs p)
    (a : Artifact) : Extractions directory (a :: artifacts) fs p := by
  obtain ⟨b, member, loose, found⟩ := h
  exact ⟨b, List.mem_cons_of_mem a member, loose, found⟩

/-- Mods that are added one after the other. A jar that is written out stays as long as no other mod has
its file name. -/
theorem register_eq_ok (h : loader.register fs artifacts = (loader', fs', .ok ())) :
    loader'.mods = loader.mods ++ artifacts.map (fun a =>
        ModContainer.ofArtifact (a.settled loader.config.processedPath)) ∧
      Files.Keeps (Extractions loader.config.processedPath artifacts fs') fs fs' ∧
      (((artifacts.filter Artifact.isLoose).map Artifact.fileName).Nodup →
        ∀ a ∈ artifacts, a.isLoose = true → ∀ jar, a.source = .memory jar →
          fs'.read (Path.join loader.config.processedPath a.fileName) = .ok jar) := by
  induction artifacts generalizing loader fs with
  | nil =>
    obtain ⟨rfl, rest⟩ := Prod.mk.inj h
    obtain ⟨rfl, _⟩ := Prod.mk.inj rest
    exact ⟨(List.append_nil _).symm, .refl _ _, fun _ _ member => absurd member List.not_mem_nil⟩
  | cons a artifacts ih =>
    have added (m : ModContainer) (ms : List ModContainer) :
        (loader.addMod m).mods ++ ms = loader.mods ++ m :: ms :=
      List.append_assoc loader.mods [m] ms
    unfold register at h
    split_ifs at h with isLoose
    · have loose : a.isLoose = true := isLoose
      split at h
      · exact nomatch (Prod.mk.inj (Prod.mk.inj h).2).2
      · rename_i fs₁ path copied
        obtain ⟨rfl, p, found, within, filled⟩ := Artifact.copyTo_eq_ok copied
        obtain ⟨mods, keeps, jars⟩ := ih h
        have plain := Pipeline.isPlain_output loader.config.processedPath a
        have located := keeps.locate plain found
        have settled : a.settled loader.config.processedPath =
            a.setPath (Path.join loader.config.processedPath a.fileName) := if_pos loose
        refine ⟨?_, ?_, fun distinct => ?_⟩
        · rw [List.map_cons, settled, mods, added]
          rfl
        · have first := within.toKeeps.mono (Q := Extractions loader.config.processedPath
            (a :: artifacts) fs') fun q here => ⟨a, List.mem_cons_self, loose, here ▸ located⟩
          exact first.trans (keeps.mono fun q later => later.cons a)
        · rw [List.filter_cons_of_pos loose] at distinct
          obtain ⟨fresh, distinct'⟩ := List.nodup_cons.mp distinct
          refine List.forall_mem_cons.mpr ⟨fun _ jar source => ?_, jars distinct'⟩
          refine keeps.read (filled jar source) fun q found' later => ?_
          obtain ⟨b, member, loose', found''⟩ := later
          have same := Artifact.join_fileName_inj (Pipeline.output_unique found'' found')
          exact fresh (List.mem_map.mpr ⟨b, List.mem_filter.mpr ⟨member, loose'⟩, same⟩)
    · have loose : ¬a.isLoose = true := isLoose
      obtain ⟨mods, keeps, jars⟩ := ih h
      have settled : a.settled loader.config.processedPath = a := if_neg loose
      refine ⟨?_, keeps.mono fun q later => later.cons a, fun distinct => ?_⟩
      · rw [List.map_cons, settled, mods, added]
        rfl
      · rw [List.filter_cons_of_neg loose] at distinct
        exact List.forall_mem_cons.mpr ⟨fun loose' => absurd loose' loose, jars distinct⟩

theorem moveLast_of_find? {artifacts : List Artifact} {id : String} {found : Artifact}
    (first : (artifacts.find? fun a => a.id = id) = some found) :
    ∃ before rest, artifacts = before ++ found :: rest ∧ found.id = id ∧
      (∀ a ∈ before, a.id ≠ id) ∧ moveLast artifacts id = before ++ (rest ++ [found]) := by
  unfold moveLast
  rw [first]
  obtain ⟨named, before, rest, rfl, others⟩ := List.find?_eq_some_iff_append.mp first
  have passed : ∀ b ∈ before, ¬decide (b.id = id) = true := fun b member => by
    simpa using others b member
  have erased : (found :: rest).eraseP (fun b => decide (b.id = id)) = rest :=
    List.eraseP_cons_of_pos named
  refine ⟨before, rest, rfl, of_decide_eq_true named, fun a member same => ?_, ?_⟩
  · exact passed a member (decide_eq_true same)
  · dsimp only
    rw [List.eraseP_append_right _ passed, erased, List.append_assoc]

theorem moveLast_perm (artifacts : List Artifact) (id : String) :
    (moveLast artifacts id).Perm artifacts := by
  cases first : artifacts.find? fun a => a.id = id with
  | none =>
    rw [moveLast, first]
  | some found =>
    obtain ⟨before, rest, rfl, -, -, moved⟩ := moveLast_of_find? first
    rw [moved]
    exact (List.perm_append_singleton found rest).append_left before

theorem moveAllLast_perm (artifacts : List Artifact) (ids : List String) :
    (moveAllLast artifacts ids).Perm artifacts := by
  induction ids generalizing artifacts with
  | nil => exact .refl _
  | cons id ids ih => exact (ih (moveLast artifacts id)).trans (moveLast_perm artifacts id)

theorem load_eq_ok (done : loader.load artifacts fs = (loader', fs', .ok ())) : ∃ fs₁ n,
    Pipeline.remap loader.mappings loader.config.classpathPaths loader.config.temporaryPath
        loader.config.processedPath artifacts fs =
      (fs₁, artifacts.map (Pipeline.remapped loader.mappings loader.config.processedPath), .ok n) ∧
    loader.register fs₁ (moveAllLast
        (artifacts.map (Pipeline.remapped loader.mappings loader.config.processedPath))
        loader.config.loadLate) = (loader', fs', .ok ()) := by
  unfold load at done
  split_ifs at done
  · exact nomatch (Prod.mk.inj (Prod.mk.inj done).2).2
  dsimp only at done
  rcases remaps : Pipeline.remap loader.mappings loader.config.classpathPaths
    loader.config.temporaryPath loader.config.processedPath artifacts fs with ⟨fs₁, moved, e | n⟩
  · rw [remaps] at done
    exact nomatch (Prod.mk.inj (Prod.mk.inj done).2).2
  · rw [remaps] at done
    obtain rfl := Pipeline.artifacts_of_remap remaps
    exact ⟨fs₁, n, rfl, done⟩

/-! ### What is moved -/

section

variable (loader)

/-- Where the jar of a mod goes if it is moved. -/
def placeOf (a : Artifact) : String := Path.join loader.config.processedPath a.fileName

def remaps (a : Artifact) : Bool := loader.mappings.isSome && a.requiresRemap

/-- A mod is remapped, or written out. -/
def moves (a : Artifact) : Bool := loader.remaps a || a.isLoose

def moved (artifacts : List Artifact) : List Artifact := artifacts.filter loader.moves

/-- A mod as it is added. -/
def contained (a : Artifact) : ModContainer :=
  ⟨a.metadata, if loader.moves a then some (loader.placeOf a) else a.path?, a.builtin⟩

/-- The jar that a mod should have: what is computed from its own jar, as that was before, if it is
remapped, and else the one that it has in memory. -/
inductive OwnJar (artifacts : List Artifact) (fs : Files) (a : Artifact) : Content → Prop where
  | remapped {ix : MappingIndex} {run : Pipeline.Run} {job : Pipeline.Job} {listed : List Listed}
      {entries : List Entry} (index : loader.mappings = some ix) (requires : a.requiresRemap = true)
      (after : run = Pipeline.staged ix loader.config.classpathPaths loader.config.temporaryPath
        loader.config.processedPath artifacts fs)
      (registered : job ∈ run.jobs) (own : job.artifact = a)
      (whole : Jar.list run.files job.input = .ok listed)
      (before : ∀ jar, a.jar fs = .ok jar → jar.list = .ok listed)
      (made : Pipeline.output ix run.remapper.resolver a.metadata listed = .ok entries) :
      OwnJar artifacts fs a (.archive entries)
  | extracted {jar : Content} (kept : loader.remaps a = false) (source : a.source = .memory jar) :
      OwnJar artifacts fs a jar

theorem remapped_eq (a : Artifact) :
    Pipeline.remapped loader.mappings loader.config.processedPath a =
      if loader.remaps a then a.setPath (loader.placeOf a) else a :=
  rfl

theorem settled_remapped (a : Artifact) : ModContainer.ofArtifact
    ((Pipeline.remapped loader.mappings loader.config.processedPath a).settled
      loader.config.processedPath) = loader.contained a := by
  rw [remapped_eq]
  by_cases remapped : loader.remaps a = true
  · have moved : loader.moves a = true := by rw [moves, remapped, Bool.true_or]
    rw [if_pos remapped, contained, if_pos moved]
    rfl
  · rw [if_neg remapped, Artifact.settled, contained, moves, Bool.eq_false_of_not_eq_true remapped,
      Bool.false_or]
    split_ifs
    · rfl
    · rfl

/-- What is still to be written out when all mods have been remapped. -/
theorem isLoose_remapped (a : Artifact) :
    (Pipeline.remapped loader.mappings loader.config.processedPath a).isLoose =
      (!loader.remaps a && a.isLoose) := by
  rw [remapped_eq]
  by_cases remapped : loader.remaps a = true
  · rw [if_pos remapped, remapped]
    rfl
  · rw [if_neg remapped, Bool.eq_false_of_not_eq_true remapped, Bool.not_false, Bool.true_and]

theorem fileName_remapped (a : Artifact) :
    (Pipeline.remapped loader.mappings loader.config.processedPath a).fileName = a.fileName := by
  rw [remapped_eq]
  split_ifs
  · rfl
  · rfl

theorem nodup_places_iff (as : List Artifact) :
    (as.map loader.placeOf).Nodup ↔ (as.map Artifact.fileName).Nodup := by
  have places : as.map loader.placeOf =
      (as.map Artifact.fileName).map (Path.join loader.config.processedPath) := by
    rw [List.map_map]
    exact List.map_congr_left fun a _ => by rw [placeOf, Function.comp_apply]
  rw [places]
  constructor
  · intro distinct
    exact distinct.of_map
  · intro distinct
    apply distinct.map_on
    intro name there name' there' same
    obtain ⟨a, _, rfl⟩ := List.mem_map.mp there
    obtain ⟨b, _, rfl⟩ := List.mem_map.mp there'
    exact Artifact.join_fileName_inj same

end

/-- The mods of one kind have different file names if all that are moved have. -/
theorem nodup_fileNames {p : Artifact → Bool} (among : ∀ a, p a = true → loader.moves a = true)
    (names : ((loader.moved artifacts).map Artifact.fileName).Nodup) :
    ((artifacts.filter p).map Artifact.fileName).Nodup :=
  ((List.monotone_filter_right artifacts among).map Artifact.fileName).nodup names

theorem nodup_outputs {ix : MappingIndex} (index : loader.mappings = some ix)
    (names : ((loader.moved artifacts).map Artifact.fileName).Nodup) :
    ((Pipeline.selection artifacts).map fun q =>
      Path.join loader.config.processedPath q.2.fileName).Nodup := by
  have outputs : (Pipeline.selection artifacts).map
      (fun q => Path.join loader.config.processedPath q.2.fileName) =
        (artifacts.filter Artifact.requiresRemap).map loader.placeOf := by
    simp only [← Pipeline.map_selection, List.map_map, Function.comp_def, placeOf]
  rw [outputs, nodup_places_iff]
  refine nodup_fileNames (fun a requires => ?_) names
  rw [moves, remaps, index, requires]
  rfl

/-- Of the mods that are written out after all have been remapped, no two have one file name. -/
theorem nodup_loose (names : ((loader.moved artifacts).map Artifact.fileName).Nodup)
    (ids : List String) :
    (((moveAllLast (artifacts.map (Pipeline.remapped loader.mappings loader.config.processedPath))
      ids).filter Artifact.isLoose).map Artifact.fileName).Nodup := by
  have perm := ((moveAllLast_perm (artifacts.map (Pipeline.remapped loader.mappings
    loader.config.processedPath)) ids).filter Artifact.isLoose).map Artifact.fileName
  have same : ((artifacts.map (Pipeline.remapped loader.mappings
      loader.config.processedPath)).filter Artifact.isLoose).map Artifact.fileName =
      (artifacts.filter fun a => !loader.remaps a && a.isLoose).map Artifact.fileName := by
    have names' : Artifact.fileName ∘ Pipeline.remapped loader.mappings loader.config.processedPath =
        Artifact.fileName := funext loader.fileName_remapped
    rw [List.filter_map, List.map_map, names']
    exact congrArg (List.map _) (List.filter_congr fun a _ => loader.isLoose_remapped a)
  rw [perm.nodup_iff, same]
  refine nodup_fileNames (fun a loose => ?_) names
  rw [Bool.and_eq_true] at loose
  rw [moves, loose.2, Bool.or_true]

/-- All mods of a batch are added. Two of those that are moved are at different paths exactly if their
file names differ; and if they all do, each of these paths leads to the jar of its own mod. -/
theorem own_jar_of_load (done : loader.load artifacts fs = (loader', fs', .ok ())) :
    ∃ added, loader'.mods = loader.mods ++ added ∧ added.Perm (artifacts.map loader.contained) ∧
      (((loader.moved artifacts).map loader.placeOf).Nodup ↔
        ((loader.moved artifacts).map Artifact.fileName).Nodup) ∧
      (((loader.moved artifacts).map Artifact.fileName).Nodup →
        (∀ ix, loader.mappings = some ix → Pipeline.Apart fs' (Pipeline.staged ix
          loader.config.classpathPaths loader.config.temporaryPath loader.config.processedPath
          artifacts fs).jobs) →
        ∀ a ∈ loader.moved artifacts, ∃ jar, fs'.read (loader.placeOf a) = .ok jar ∧
          loader.OwnJar artifacts fs a jar) := by
  obtain ⟨fs₁, n, remaps, registers⟩ := load_eq_ok done
  obtain ⟨mods, keeps, jars⟩ := register_eq_ok registers
  have perm := moveAllLast_perm
    (artifacts.map (Pipeline.remapped loader.mappings loader.config.processedPath)) loader.config.loadLate
  refine ⟨_, mods, ?_, loader.nodup_places_iff _, fun names apart a member => ?_⟩
  · refine (perm.map _).trans (List.Perm.of_eq ?_)
    rw [List.map_map]
    exact List.map_congr_left fun a _ => loader.settled_remapped a
  obtain ⟨there, moves⟩ := List.mem_filter.mp member
  by_cases remapped : loader.remaps a = true
  · obtain ⟨some, requires⟩ := (Bool.and_eq_true _ _).mp remapped
    obtain ⟨ix, index⟩ := Option.isSome_iff_exists.mp some
    obtain ⟨i, found⟩ := List.getElem?_of_mem there
    have batch := index ▸ remaps
    obtain ⟨job, registered, own, listed, classes, hs, entries, fed, before, made, read⟩ :=
      Pipeline.output_of_remap_later batch (nodup_outputs index names) keeps.forget (apart ix index)
        (i, a) (Pipeline.mem_selection.mpr ⟨found, requires⟩)
    refine ⟨.archive entries, keeps.read read fun p found' later => ?_,
      .remapped index requires rfl registered own fed.whole before made⟩
    -- What is written out later has another file name.
    obtain ⟨b', inside, loose, found''⟩ := later
    obtain ⟨b, there', rfl⟩ := List.mem_map.mp (perm.mem_iff.mp inside)
    rw [isLoose_remapped, Bool.and_eq_true] at loose
    have name := Artifact.join_fileName_inj (Pipeline.output_unique found'' found')
    rw [fileName_remapped] at name
    have moves' : loader.moves b = true := by rw [ModLoader.moves, loose.2, Bool.or_true]
    have same := List.inj_on_of_nodup_map names (List.mem_filter.mpr ⟨there', moves'⟩) member name
    rw [same, remapped] at loose
    exact absurd loose.1 Bool.false_ne_true
  · have loose : a.isLoose = true := ((Bool.or_eq_true _ _).mp moves).resolve_left remapped
    cases source : a.source with
    | path path =>
      rw [Artifact.isLoose, Artifact.path?, source] at loose
      exact absurd loose Bool.false_ne_true
    | memory jar =>
      have still : Pipeline.remapped loader.mappings loader.config.processedPath a = a := by
        rw [remapped_eq, if_neg remapped]
      have inside := perm.mem_iff.mpr (List.mem_map.mpr ⟨a, there, still⟩)
      exact ⟨jar, jars (nodup_loose names _) a inside loose jar source,
        .extracted (Bool.eq_false_of_not_eq_true remapped) source⟩

theorem exists_of_snd_eq {α β : Type} {x : α × β} {b : β} (h : x.2 = b) : ∃ a, x = (a, b) :=
  ⟨x.1, h ▸ rfl⟩

/-- One mod is remapped, the other is written out. -/
theorem own_jar_of_load_both :
    let a : Artifact := {
      metadata := { id := "a", version := "1" }
      source := .path "mods/a.jar"
      requiresRemap := true }
    let b : Artifact := {
      metadata := { id := "b", version := "1" }
      source := .memory (.data [7]) }
    let fs : Files := { nodes := Dict.ofList [(["mods"], .directory),
      (["mods", "a.jar"], .file (.archive [⟨"t", [1]⟩]))] }
    let host : Host Unit Unit := { factories := {}, publish := fun _ => pure (.ok ()) }
    let loader : ModLoader Unit Unit := {
      config := { loadLate := ["a"] }
      mappings := some ⟨"s", "t", ∅, ∅⟩
      host }
    ∃ loader' fs', loader.load [a, b] fs = (loader', fs', .ok ()) ∧
      ((loader.moved [a, b]).map Artifact.fileName).Nodup ∧
      (∀ ix, loader.mappings = some ix → Pipeline.Apart fs' (Pipeline.staged ix
        loader.config.classpathPaths loader.config.temporaryPath loader.config.processedPath
        [a, b] fs).jobs) ∧
      loader'.mods.Perm [⟨a.metadata, some "./.fabric/processedMods/a-1.jar", false⟩,
        ⟨b.metadata, some "./.fabric/processedMods/b-1.jar", false⟩] ∧
      loader.OwnJar [a, b] fs a (.archive [⟨"t", [1]⟩]) ∧ loader.OwnJar [a, b] fs b (.data [7]) := by
  intro a b fs host loader
  let fs' : Files := {
    nodes := Dict.ofList [(["mods"], .directory), (["mods", "a.jar"], .file (.archive [⟨"t", [1]⟩])),
      ([".fabric"], .directory), ([".fabric", "processedMods"], .directory),
      ([".fabric", "processedMods", "a-1.jar"], .file (.archive [⟨"t", [1]⟩])),
      ([".fabric", "processedMods", "b-1.jar"], .file (.data [7]))] }
  have result : (loader.load [a, b] fs).2 = (fs', .ok ()) := by decide +kernel
  obtain ⟨loader', done⟩ := exists_of_snd_eq result
  have names : ((loader.moved [a, b]).map Artifact.fileName).Nodup := by decide +kernel
  have jobs : (Pipeline.staged ⟨"s", "t", ∅, ∅⟩ loader.config.classpathPaths
      loader.config.temporaryPath loader.config.processedPath [a, b] fs).jobs =
      [⟨0, a, 0, "mods/a.jar", false, "./.fabric/processedMods/a-1.jar"⟩] := by decide +kernel
  have apart : ∀ ix, loader.mappings = some ix → Pipeline.Apart fs' (Pipeline.staged ix
      loader.config.classpathPaths loader.config.temporaryPath loader.config.processedPath
      [a, b] fs).jobs := by
    intro ix index
    obtain rfl := Option.some.inj index
    rw [jobs]
    intro j hj k hk
    obtain rfl := List.mem_singleton.mp hj
    obtain rfl := List.mem_singleton.mp hk
    have input : fs'.locate "mods/a.jar" = .ok ["mods", "a.jar"] := by decide +kernel
    have output : fs'.locate "./.fabric/processedMods/a-1.jar" =
        .ok [".fabric", "processedMods", "a-1.jar"] := by decide +kernel
    exact Files.apart_of_locate input output (by decide)
  obtain ⟨added, mods, perm, _, jars⟩ := own_jar_of_load done
  have contained : [a, b].map loader.contained =
      [⟨a.metadata, some "./.fabric/processedMods/a-1.jar", false⟩,
        ⟨b.metadata, some "./.fabric/processedMods/b-1.jar", false⟩] := by decide +kernel
  have first : fs'.read (loader.placeOf a) = .ok (.archive [⟨"t", [1]⟩]) := by decide +kernel
  have second : fs'.read (loader.placeOf b) = .ok (.data [7]) := by decide +kernel
  obtain ⟨jar, read, own⟩ := jars names apart a (by decide +kernel)
  obtain ⟨jar', read', own'⟩ := jars names apart b (by decide +kernel)
  obtain rfl := Except.ok.inj (first.symm.trans read)
  obtain rfl := Except.ok.inj (second.symm.trans read')
  refine ⟨loader', fs', done, names, apart, ?_, own, own'⟩
  rw [mods]
  exact contained ▸ perm

/-- Two ids that differ in a character that file names do not have. The second jar is written over the
first one, and both mods are loaded from it. -/
theorem jar_lost_of_load :
    let a : Artifact := {
      metadata := { id := "a+", version := "1" }
      source := .memory (.data (bytesOf "first")) }
    let b : Artifact := {
      metadata := { id := "a_", version := "1" }
      source := .memory (.data (bytesOf "second")) }
    let path := "./.fabric/processedMods/a_-1.jar"
    let host : Host Unit Unit := { factories := {}, publish := fun _ => pure (.ok ()) }
    let loader : ModLoader Unit Unit := { config := {}, mappings := none, host }
    let after := loader.load [a, b] ∅
    a.id ≠ b.id ∧ after.2.2 = .ok () ∧
      after.1.mods = [⟨a.metadata, some path, false⟩, ⟨b.metadata, some path, false⟩] ∧
      after.2.1.read path = .ok (.data (bytesOf "second")) := by
  intro a b path host loader after
  exact ⟨by decide +kernel, by decide +kernel, by decide +kernel, by decide +kernel⟩

end ModLoader

end ModRemap
