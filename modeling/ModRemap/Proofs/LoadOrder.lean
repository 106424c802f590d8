import Mathlib
import ModRemap.Proofs.LoadedJars
import ModRemap.Proofs.LoaderCalls

/-! The order of the loaded mods, and how they are looked up. Mods that are to be loaded late go behind
the others, in the order in which their ids are mentioned last; and an id leads to the last mod that has
or provides it, whatever calls have been made. -/

namespace ModRemap

/-- The mod has the id or provides it. -/
def ModContainer.Answers (m : ModContainer) (id : String) : Prop := m.id = id ∨ id ∈ m.metadata.provides

instance (m : ModContainer) (id : String) : Decidable (m.Answers id) :=
  inferInstanceAs (Decidable (_ ∨ _))

namespace ModLoader

variable {σ ι : Type} (loader : ModLoader σ ι)

/-! ### Adding mods -/

def addMods (mods : List ModContainer) : ModLoader σ ι := mods.foldl addMod loader

theorem addMods_append (mods mods' : List ModContainer) :
    loader.addMods (mods ++ mods') = (loader.addMods mods).addMods mods' :=
  List.foldl_append

theorem mods_addMods (mods : List ModContainer) : (loader.addMods mods).mods = loader.mods ++ mods := by
  induction mods generalizing loader with
  | nil => exact (List.append_nil _).symm
  | cons m mods ih => exact (ih (loader.addMod m)).trans (List.append_assoc loader.mods [m] mods)

theorem mod?_addMod (m : ModContainer) (id : String) :
    (loader.addMod m).mod? id = if m.Answers id then some m else loader.mod? id := by
  refine (Dict.get?_foldl_insert (m.id :: m.metadata.provides) loader.known id m).trans ?_
  exact if_congr (List.mem_cons.trans (or_congr_left eq_comm)) rfl rfl

/-- A mod as it is added once it has been written out, if it has to be. -/
def added (a : Artifact) : ModContainer := .ofArtifact (a.settled loader.config.processedPath)

/-- What adding mods one after the other comes to: all of them are there, or those in front of one that
cannot be written out. -/
inductive Registered (artifacts : List Artifact) : ModLoader σ ι × Except LoaderError Unit → Prop where
  | all : Registered artifacts (loader.addMods (artifacts.map loader.added), .ok ())
  | upTo {before rest : List Artifact} {a : Artifact} (split : artifacts = before ++ a :: rest)
      (loose : a.isLoose = true) :
      Registered artifacts (loader.addMods (before.map loader.added), .error (.extract a.id))

theorem Registered.cons {artifacts : List Artifact} {a : Artifact}
    {outcome : ModLoader σ ι × Except LoaderError Unit}
    (registered : (loader.addMod (loader.added a)).Registered artifacts outcome) :
    loader.Registered (a :: artifacts) outcome := by
  cases registered with
  | all => exact .all
  | @upTo before rest b split loose =>
    have split' : a :: artifacts = (a :: before) ++ b :: rest := congrArg (a :: ·) split
    exact .upTo split' loose

theorem registered_register (fs : Files) (artifacts : List Artifact) :
    loader.Registered artifacts
      ((loader.register fs artifacts).1, (loader.register fs artifacts).2.2) := by
  induction artifacts generalizing loader fs with
  | nil => exact .all
  | cons a artifacts ih =>
    unfold register
    split_ifs with isLoose
    · have loose : a.isLoose = true := isLoose
      have written : a.settled loader.config.processedPath =
          a.setPath (Path.join loader.config.processedPath a.fileName) := if_pos loose
      split
      · exact .upTo (List.nil_append (a :: artifacts)).symm loose
      · rename_i fs₁ path copied
        obtain ⟨rfl, -⟩ := Artifact.copyTo_eq_ok copied
        refine Registered.cons loader ?_
        rw [added, written]
        exact ih _ fs₁
    · have kept : a.settled loader.config.processedPath = a := if_neg isLoose
      refine Registered.cons loader ?_
      rw [added, kept]
      exact ih _ fs

/-! ### The order of a batch -/

theorem moveLast_map {f : Artifact → Artifact} (same : ∀ a, (f a).id = a.id) (artifacts : List Artifact)
    (id : String) : moveLast (artifacts.map f) id = (moveLast artifacts id).map f := by
  have ids : (fun a => decide ((f a).id = id)) = fun a : Artifact => decide (a.id = id) :=
    funext fun a => by rw [same]
  unfold moveLast
  rw [List.find?_map, List.eraseP_map, Function.comp_def, ids]
  cases artifacts.find? fun a => a.id = id with
  | none => rfl
  | some found => rw [Option.map_some, List.map_append, List.map_singleton]

theorem moveAllLast_map {f : Artifact → Artifact} (same : ∀ a, (f a).id = a.id)
    (artifacts : List Artifact) (ids : List String) :
    moveAllLast (artifacts.map f) ids = (moveAllLast artifacts ids).map f := by
  induction ids generalizing artifacts with
  | nil => rfl
  | cons id ids ih =>
    show moveAllLast (moveLast (artifacts.map f) id) ids = _
    rw [moveLast_map same, ih]
    rfl

/-- Of mods with different ids the one with an id goes behind all others. -/
theorem moveLast_eq {artifacts : List Artifact} (distinct : (artifacts.map Artifact.id).Nodup)
    (id : String) :
    moveLast artifacts id = artifacts.filter (fun a => a.id ≠ id) ++ artifacts.filter fun a => a.id = id := by
  cases first : artifacts.find? fun a => a.id = id with
  | none =>
    have others : ∀ a ∈ artifacts, ¬a.id = id := by simpa using first
    rw [moveLast, first, List.filter_eq_self.mpr fun a member => decide_eq_true (others a member),
      List.filter_eq_nil_iff.mpr fun a member => by simpa using others a member, List.append_nil]
  | some found =>
    obtain ⟨before, rest, rfl, named, others, moved⟩ := moveLast_of_find? first
    rw [moved]
    have later : ∀ a ∈ rest, a.id ≠ id := by
      intro a member same
      rw [List.map_append, List.map_cons, List.nodup_append] at distinct
      obtain ⟨-, distinct, -⟩ := distinct
      exact (List.nodup_cons.mp distinct).1 (named ▸ same ▸ List.mem_map_of_mem member)
    have kept {as : List Artifact} (others : ∀ a ∈ as, a.id ≠ id) :
        as.filter (fun a => a.id ≠ id) = as ∧ as.filter (fun a => a.id = id) = [] :=
      ⟨List.filter_eq_self.mpr fun a member => decide_eq_true (others a member),
        List.filter_eq_nil_iff.mpr fun a member => by simpa using others a member⟩
    rw [List.filter_append, List.filter_append, List.filter_cons_of_neg (by simpa using named),
      List.filter_cons_of_pos (by simpa using named), (kept others).1, (kept others).2, (kept later).1,
      (kept later).2, List.nil_append, List.append_assoc]

/-- Each mod is still found by its id. -/
theorem filter_id_moveLast {artifacts : List Artifact} (distinct : (artifacts.map Artifact.id).Nodup)
    (id id' : String) :
    (moveLast artifacts id).filter (fun a => a.id = id') = artifacts.filter fun a => a.id = id' := by
  rw [moveLast_eq distinct, List.filter_append]
  rcases eq_or_ne id' id with rfl | other
  · have gone : (artifacts.filter fun a => a.id ≠ id').filter (fun a => a.id = id') = [] :=
      List.filter_eq_nil_iff.mpr fun a member => by simpa using (List.mem_filter.mp member).2
    rw [gone, List.nil_append]
    exact List.filter_eq_self.mpr fun a member => (List.mem_filter.mp member).2
  · have gone : (artifacts.filter fun a => a.id = id).filter (fun a => a.id = id') = [] := by
      refine List.filter_eq_nil_iff.mpr fun a member => ?_
      have named : a.id = id := of_decide_eq_true (List.mem_filter.mp member).2
      simpa only [named, decide_eq_true_eq] using other.symm
    rw [gone, List.append_nil, List.filter_filter]
    refine List.filter_congr fun a _ => ?_
    rw [← Bool.decide_and]
    exact decide_eq_decide.mpr ⟨And.left, fun here => ⟨here, here ▸ other⟩⟩

/-- Mods that are to be loaded late stand behind the others, in the order in which their ids are
mentioned last. -/
theorem moveAllLast_eq {artifacts : List Artifact} (distinct : (artifacts.map Artifact.id).Nodup)
    (ids : List String) :
    moveAllLast artifacts ids = artifacts.filter (fun a => a.id ∉ ids) ++
      ids.dedup.flatMap fun id => artifacts.filter fun a => a.id = id := by
  induction ids generalizing artifacts with
  | nil => simp [moveAllLast]
  | cons id ids ih =>
    have distinct' : ((moveLast artifacts id).map Artifact.id).Nodup :=
      ((moveLast_perm artifacts id).map _).nodup_iff.mpr distinct
    have step : moveAllLast artifacts (id :: ids) = moveAllLast (moveLast artifacts id) ids := rfl
    have others : (artifacts.filter fun a => a.id ≠ id).filter (fun a => a.id ∉ ids) =
        artifacts.filter fun a => a.id ∉ id :: ids := by
      rw [List.filter_filter]
      refine List.filter_congr fun a _ => ?_
      rw [← Bool.decide_and]
      exact decide_eq_decide.mpr (by rw [List.mem_cons, not_or, and_comm])
    rw [step, ih distinct', moveLast_eq distinct, List.filter_append, others, ← moveLast_eq distinct]
    simp only [filter_id_moveLast distinct]
    by_cases again : id ∈ ids
    · have none : (artifacts.filter fun a => a.id = id).filter (fun a => a.id ∉ ids) = [] := by
        refine List.filter_eq_nil_iff.mpr fun a member => ?_
        have named : a.id = id := of_decide_eq_true (List.mem_filter.mp member).2
        simpa only [named, decide_eq_true_eq, not_not] using again
      rw [none, List.append_nil, List.dedup_cons_of_mem again]
    · have all : (artifacts.filter fun a => a.id = id).filter (fun a => a.id ∉ ids) =
          artifacts.filter fun a => a.id = id := by
        refine List.filter_eq_self.mpr fun a member => ?_
        have named : a.id = id := of_decide_eq_true (List.mem_filter.mp member).2
        simpa only [named, decide_eq_true_eq] using again
      rw [all, List.dedup_cons_of_notMem again, List.flatMap_cons, List.append_assoc]

/-! ### Loading -/

/-- What a load comes to. The mods of its batch are taken in the order `ordered`. -/
inductive Loaded (ordered : List Artifact) : ModLoader σ ι × Except LoaderError Unit → Prop where
  | frozen (isFrozen : loader.frozen = true) : Loaded ordered (loader, .error .frozen)
  | unmapped (cause : RemapError) : Loaded ordered (loader, .error (.remap cause))
  | upTo {before rest : List Artifact} {a : Artifact} (split : ordered = before ++ a :: rest)
      (kept : loader.remaps a = false) (loose : a.isLoose = true) :
      Loaded ordered (loader.addMods (before.map loader.contained), .error (.extract a.id))
  | all : Loaded ordered (loader.addMods (ordered.map loader.contained), .ok ())

theorem added_remapped (a : Artifact) :
    loader.added (Pipeline.remapped loader.mappings loader.config.processedPath a) = loader.contained a :=
  loader.settled_remapped a

theorem id_remapped (a : Artifact) :
    (Pipeline.remapped loader.mappings loader.config.processedPath a).id = a.id := by
  rw [remapped_eq]
  split_ifs <;> rfl

theorem loaded_of_registered {ordered : List Artifact}
    {outcome : ModLoader σ ι × Except LoaderError Unit}
    (registered : loader.Registered
      (ordered.map (Pipeline.remapped loader.mappings loader.config.processedPath)) outcome) :
    loader.Loaded ordered outcome := by
  have contained (as : List Artifact) :
      (as.map (Pipeline.remapped loader.mappings loader.config.processedPath)).map loader.added =
        as.map loader.contained := by
    rw [List.map_map]
    exact List.map_congr_left fun a _ => loader.added_remapped a
  cases registered with
  | all => exact contained ordered ▸ .all
  | upTo split loose =>
    obtain ⟨before, others, rfl, rfl, tail⟩ := List.map_eq_append_iff.mp split
    obtain ⟨a, rest, rfl, rfl, -⟩ := List.map_eq_cons_iff.mp tail
    rw [isLoose_remapped, Bool.and_eq_true, Bool.not_eq_true'] at loose
    rw [contained, id_remapped]
    exact .upTo rfl loose.1 loose.2

theorem loaded_load (artifacts : List Artifact) (fs : Files) :
    loader.Loaded (moveAllLast artifacts loader.config.loadLate)
      ((loader.load artifacts fs).1, (loader.load artifacts fs).2.2) := by
  unfold load
  split_ifs with isFrozen
  · exact .frozen isFrozen
  dsimp only
  rcases remaps : Pipeline.remap loader.mappings loader.config.classpathPaths
    loader.config.temporaryPath loader.config.processedPath artifacts fs with ⟨fs₁, moved, e | n⟩
  · exact .unmapped e
  · obtain rfl := Pipeline.artifacts_of_remap remaps
    have registered := loader.registered_register fs₁ (moveAllLast (artifacts.map (Pipeline.remapped
      loader.mappings loader.config.processedPath)) loader.config.loadLate)
    rw [moveAllLast_map loader.id_remapped] at registered
    dsimp only
    rw [moveAllLast_map loader.id_remapped]
    exact loader.loaded_of_registered registered

/-! ### Looking mods up -/

/-- Of the mods that are added the last one that answers to an id wins, and the mods from before are asked
only where none does. -/
theorem mod?_addMods (mods : List ModContainer) (id : String) :
    (loader.addMods mods).mod? id = (mods.findRev? fun m => m.Answers id).or (loader.mod? id) := by
  induction mods using List.reverseRecOn with
  | nil => rfl
  | append_singleton mods m ih =>
    have last : loader.addMods (mods ++ [m]) = (loader.addMods mods).addMod m := loader.addMods_append mods [m]
    rw [last, mod?_addMod, ih, List.findRev?_eq_find?_reverse, List.findRev?_eq_find?_reverse,
      List.reverse_append, List.reverse_singleton, List.singleton_append, List.find?_cons]
    by_cases answers : m.Answers id
    · rw [if_pos answers, decide_eq_true answers, Option.some_or]
    · rw [if_neg answers, decide_eq_false answers]

/-- An id leads to the last mod that answers to it. -/
def InStep : Prop := ∀ id, loader.mod? id = loader.mods.findRev? fun m => m.Answers id

variable {loader}

theorem InStep.addMods (before : loader.InStep) (mods : List ModContainer) :
    (loader.addMods mods).InStep := by
  intro id
  rw [mod?_addMods, mods_addMods, before id]
  simp only [List.findRev?_eq_find?_reverse, List.reverse_append, List.find?_append]

theorem InStep.load (before : loader.InStep) (artifacts : List Artifact) (fs : Files) :
    (loader.load artifacts fs).1.InStep := by
  have loaded := loader.loaded_load artifacts fs
  generalize (loader.load artifacts fs).1 = loader', (loader.load artifacts fs).2.2 = result at loaded
  cases loaded with
  | frozen isFrozen => exact before
  | unmapped cause => exact before
  | upTo split kept loose => exact before.addMods _
  | all => exact before.addMods _

theorem InStep.freeze (before : loader.InStep) (s : σ) : (loader.freeze.run s).1.1.InStep := by
  obtain ⟨-, mods, known⟩ := kept_freeze loader s
  intro id
  rw [mod?, mods, known]
  exact before id

theorem InStep.after (before : loader.InStep) (calls : List (Call σ)) : (loader.after calls).InStep := by
  induction calls generalizing loader with
  | nil => exact before
  | cons call calls ih =>
    cases call with
    | load artifacts files => exact ih (before.load artifacts files)
    | freeze host => exact ih (before.freeze host)

variable (loader)

/-- A loader that calls have led to. At first it has no mods. -/
def Reachable : Prop :=
  ∃ (config : LoaderConfig) (mappings : Option MappingIndex) (host : Host σ ι) (calls : List (Call σ)),
    loader = ({ config, mappings, host } : ModLoader σ ι).after calls

variable {loader}

theorem Reachable.inStep (reachable : loader.Reachable) : loader.InStep := by
  obtain ⟨config, mappings, host, calls, rfl⟩ := reachable
  have start : ({ config, mappings, host } : ModLoader σ ι).InStep := fun id => rfl
  exact start.after calls

theorem InStep.isModLoaded_iff (inStep : loader.InStep) (id : String) :
    loader.isModLoaded id = true ↔ ∃ m ∈ loader.mods, m.Answers id := by
  have known : loader.isModLoaded id = true ↔ ∃ m, loader.mod? id = some m := loader.known.contains_iff id
  rw [known, ← Option.isSome_iff_exists, inStep id, List.findRev?_eq_find?_reverse, List.find?_isSome]
  simp only [List.mem_reverse, decide_eq_true_eq]

/-- The mods of a batch come behind those that there are. If their ids differ, those that are not to be
loaded late keep their order, and the others follow in the order in which their ids are mentioned last. An
id leads to the last mod that has or provides it. -/
theorem load_order_lookup (loader : ModLoader σ ι) :
    (∀ artifacts fs loader' fs', loader.load artifacts fs = (loader', fs', .ok ()) →
      ∃ ordered : List Artifact, ordered.Perm artifacts ∧
        loader'.mods = loader.mods ++ ordered.map loader.contained ∧
        ((artifacts.map Artifact.id).Nodup → ordered =
          artifacts.filter (fun a => a.id ∉ loader.config.loadLate) ++
            loader.config.loadLate.dedup.flatMap fun id => artifacts.filter fun a => a.id = id)) ∧
      (loader.Reachable → ∀ id, loader.mod? id = loader.mods.findRev? (fun m => m.Answers id) ∧
        (loader.isModLoaded id = true ↔ ∃ m ∈ loader.mods, m.Answers id)) := by
  refine ⟨fun artifacts fs loader' fs' done => ?_, fun reachable id => ?_⟩
  · have loaded := loader.loaded_load artifacts fs
    rw [done] at loaded
    cases loaded with
    | all =>
      exact ⟨_, moveAllLast_perm artifacts _, loader.mods_addMods _, fun distinct =>
        moveAllLast_eq distinct _⟩
  · exact ⟨reachable.inStep id, reachable.inStep.isModLoaded_iff id⟩

/-- Of two mods that are loaded late, one is mentioned again, and the last mod provides the id of
another one. -/
theorem load_order_lookup_late :
    let builtin (metadata : ModMetadata) : Artifact :=
      { metadata, source := .memory (.data []), builtin := true }
    let a := builtin { id := "a", version := "1" }
    let b := builtin { id := "b", version := "1", provides := ["c"] }
    let c := builtin { id := "c", version := "1" }
    let config : LoaderConfig := { loadLate := ["b", "d", "a", "b"] }
    let host : Host Unit Unit := { factories := {}, publish := fun _ => pure (.ok ()) }
    let loader : ModLoader Unit Unit := { config, mappings := none, host }
    let after := loader.load [a, b, c] ∅
    after.2.2 = .ok () ∧ ([a, b, c].map Artifact.id).Nodup ∧ after.1.Reachable ∧
      after.1.mods = [c, a, b].map ModContainer.ofArtifact ∧
      after.1.mod? "c" = some (.ofArtifact b) := by
  intro builtin a b c config host loader after
  have done : after.2.2 = .ok () := by decide +kernel
  have distinct : ([a, b, c].map Artifact.id).Nodup := by decide
  have reachable : after.1.Reachable := ⟨config, none, host, [.load [a, b, c] ∅], rfl⟩
  obtain ⟨ordered, -, mods, order⟩ :=
    (load_order_lookup loader).1 [a, b, c] ∅ after.1 after.2.1 (Prod.ext rfl (Prod.ext rfl done))
  have mods' : after.1.mods = [c, a, b].map ModContainer.ofArtifact := by
    rw [mods, order distinct]
    decide +kernel
  refine ⟨done, distinct, reachable, mods', ?_⟩
  rw [((load_order_lookup after.1).2 reachable "c").1, mods']
  decide +kernel

end ModLoader

end ModRemap
