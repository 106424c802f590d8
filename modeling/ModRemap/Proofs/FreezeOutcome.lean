import Mathlib
import ModRemap.Proofs.DeclaredEntrypoints
import ModRemap.Proofs.LoaderCalls
import ModRemap.Proofs.Reader
import ModRemap.Proofs.RegisteredAdapters
import ModRemap.Proofs.SingleInstances

/-! When freezing succeeds, and what is found under each key then. -/

namespace ModRemap.ModLoader

open EntrypointRegistry

variable {σ ι : Type} (loader : ModLoader σ ι)

/-! ### Entrypoints -/

/-- What a mod declares under a key: its old-style initializers, then what its metadata lists. -/
def declaredBy (adapters : AdapterRegistry σ ι) (metadata : ModMetadata) (key : String) :
    List (Option (Declaration σ ι)) :=
  (if key ∈ legacyKeys then metadata.legacyInitializers.map fun value =>
      some (.legacy metadata.id value metadata.legacyAdapterName) else []) ++
    ((metadata.entrypoints.get? key).getD []).map (keyedDeclaration? adapters metadata.id)

theorem gives_setupMod {registry registry' : EntrypointRegistry σ ι} (h : registry.Numbered)
    {m : ModContainer} (added : setupMod registry m = .ok registry') :
    registry.Gives registry' (declaredBy registry.adapters m.metadata) := by
  have first := Gives.addLegacy h m.metadata.id m.metadata.legacyAdapterName m.metadata.legacyInitializers
  have last := except_mapError_eq_ok.mp added
  refine (first.trans (Gives.add first.numbered _ last)).congr fun key => ?_
  rw [declaredBy, first.adapters, declarationsOf, Dict.filter_rows, List.map_map]
  rfl

theorem setupMod_ok_iff (registry : EntrypointRegistry σ ι) (m : ModContainer) :
    (∃ registry', setupMod registry m = .ok registry') ↔
      ∀ p ∈ declarationsOf m.metadata, registry.adapters.keyed.contains p.2.adapter = true := by
  have legacy : (m.metadata.legacyInitializers.foldl (fun r value =>
      r.addLegacy m.metadata.id m.metadata.legacyAdapterName value) registry).adapters =
      registry.adapters := by
    generalize m.metadata.legacyInitializers = values
    induction values generalizing registry with
    | nil => rfl
    | cons value rest ih => exact ih _
  refine (exists_congr fun registry' => except_mapError_eq_ok).trans ?_
  rw [add_ok_iff, legacy]

theorem gives_setupMods {registry registry' : EntrypointRegistry σ ι} (h : registry.Numbered)
    {mods : List ModContainer} (added : mods.foldlM setupMod registry = .ok registry') :
    registry.Gives registry' fun key =>
      mods.flatMap fun m => declaredBy registry.adapters m.metadata key := by
  induction mods generalizing registry with
  | nil =>
    obtain rfl := Except.ok.inj added
    exact .refl h
  | cons m rest ih =>
    rw [List.foldlM_cons] at added
    cases first : setupMod registry m with
    | error e =>
      rw [first] at added
      cases added
    | ok registry'' =>
      rw [first] at added
      have gives := gives_setupMod h first
      refine (gives.trans (ih gives.numbered added)).congr fun key => ?_
      rw [gives.adapters, List.flatMap_cons]

theorem setupMods_ok_iff {registry : EntrypointRegistry σ ι} (h : registry.Numbered)
    (mods : List ModContainer) :
    (∃ registry', mods.foldlM setupMod registry = .ok registry') ↔ ∀ m ∈ mods,
      ∀ p ∈ declarationsOf m.metadata, registry.adapters.keyed.contains p.2.adapter = true := by
  induction mods generalizing registry with
  | nil => exact iff_of_true ⟨registry, rfl⟩ fun m member => by cases member
  | cons m rest ih =>
    rw [List.foldlM_cons, List.forall_mem_cons, ← setupMod_ok_iff]
    cases first : setupMod registry m with
    | error e =>
      refine iff_of_false ?_ ?_
      · rintro ⟨_, added⟩
        cases added
      · rintro ⟨⟨_, there⟩, -⟩
        cases there
    | ok registry' =>
      have gives := gives_setupMod h first
      refine (ih gives.numbered).trans ?_
      rw [gives.adapters]
      exact (and_iff_right ⟨registry', rfl⟩).symm

/-! ### Freezing -/

theorem run_handOver {publish : String → StateM σ (Except String Unit)}
    (accepts : ∀ path s, ((publish path).run s).1 = .ok ()) (paths : List String) (s : σ) :
    ((handOver publish paths).run s).1 = .ok () := by
  induction paths generalizing s with
  | nil => rfl
  | cons path rest ih =>
    rw [run_handOver_cons, accepts path s]
    exact ih _

/-- The state of the host once all paths have been handed over. -/
def published (s : σ) : σ :=
  ((handOver loader.host.publish (loader.mods.filterMap (unpublished? loader.config))).run s).2

theorem run_setup_of_accepts (accepts : ∀ path s, ((loader.host.publish path).run s).1 = .ok ())
    (s : σ) (registry : EntrypointRegistry σ ι) :
    (loader.setup.run.run s).1 = .ok registry ↔
      ∃ adapters, Registers loader.host loader.mods (loader.published s) adapters ∧
        loader.mods.foldlM setupMod { adapters } = .ok registry := by
  have run : (loader.setup.run.run s).1 = (loader.setupRegistry.run.run (loader.published s)).1 := by
    rw [run_setup]
    show ((continued loader.setupRegistry.run ((handOver _ _).run s).1).run _).1 = _
    rw [run_handOver accepts]
    rfl
  rw [run]
  simp only [← run_setupAdapters]
  cases made : (setupAdapters loader.host loader.mods).run.run (loader.published s) with
  | mk result s' =>
    cases result with
    | error e =>
      rw [setupRegistry, run_bind_error made]
      refine iff_of_false (fun same => by cases same) ?_
      rintro ⟨_, same, -⟩
      cases same
    | ok adapters =>
      rw [setupRegistry, run_bind_ok made]
      constructor
      · exact fun same => ⟨adapters, rfl, same⟩
      · rintro ⟨_, same, added⟩
        obtain rfl := Except.ok.inj same
        exact added

theorem freeze_ok_iff (unfrozen : loader.frozen = false) (s : σ) :
    (loader.freeze.run s).1.2 = .ok () ↔ ∃ registry, (loader.setup.run.run s).1 = .ok registry := by
  rw [freeze_of_open loader unfrozen]
  show (loader.setup.run.run s).1.map (fun _ => ()) = .ok () ↔ _
  cases (loader.setup.run.run s).1 with
  | ok registry => exact iff_of_true rfl ⟨registry, rfl⟩
  | error e =>
    refine iff_of_false (fun same => by cases same) ?_
    rintro ⟨_, same⟩
    cases same

theorem entrypoints_of_setup (unfrozen : loader.frozen = false) {s : σ}
    {registry : EntrypointRegistry σ ι} (setup : (loader.setup.run.run s).1 = .ok registry) :
    (loader.freeze.run s).1.1.entrypoints = some registry := by
  rw [freeze_of_open loader unfrozen]
  show (loader.settled (loader.setup.run.run s).1).entrypoints = some registry
  rw [setup]
  rfl

/-- Whatever has been made before, entrypoints and their containers come from a registry, in the order
of declaration. -/
def Answers (loader : ModLoader σ ι) (registry : EntrypointRegistry σ ι) : Prop :=
  ∀ key capability world,
    registry.Shows ((loader.containers key capability).run world).2.made (.containers key capability)
        ((loader.containers key capability).run world).1 ∧
      registry.Shows ((loader.instances key capability).run world).2.made (.instances key capability)
        ((loader.instances key capability).run world).1

theorem answers_of_entrypoints {loader : ModLoader σ ι} {registry : EntrypointRegistry σ ι}
    (entrypoints : loader.entrypoints = some registry) : loader.Answers registry := by
  intro key capability world
  rw [containers, instances, entrypoints]
  exact ⟨(leaves_serve registry nestingLimit (.containers key capability) world).2,
    (leaves_serve registry nestingLimit (.instances key capability) world).2⟩

/-- Freezing succeeds if and only if nothing is registered twice and nothing is missing; then every key
lists what the mods declare under it, mod by mod. -/
theorem freeze_outcome (unfrozen : loader.frozen = false)
    (accepts : ∀ path s, ((loader.host.publish path).run s).1 = .ok ()) (s : σ) :
    let names := (declaredAdapters loader.mods).map Prod.fst
    let frozen := (loader.freeze.run s).1
    (frozen.2 = .ok () ↔ (loader.host.factories.legacy.map Prod.fst).Nodup ∧
        (names.Nodup ∧ defaultAdapter ∉ names) ∧
        (∃ made, Instantiates loader.host (declaredAdapters loader.mods) (loader.published s) made) ∧
        ∀ m ∈ loader.mods, ∀ p ∈ declarationsOf m.metadata,
          p.2.adapter = defaultAdapter ∨ p.2.adapter ∈ names) ∧
      (frozen.2 = .ok () → ∃ registry, frozen.1.entrypoints = some registry ∧
        Registers loader.host loader.mods (loader.published s) registry.adapters ∧
        (∀ key, registry.listed key =
            loader.mods.flatMap (fun m => declaredBy registry.adapters m.metadata key) ∧
          ((registry.under key).map Prod.fst).Pairwise (· < ·)) ∧
        frozen.1.Answers registry) := by
  intro names frozen
  have start (adapters : AdapterRegistry σ ι) := numbered_start (σ := σ) (ι := ι) adapters
  constructor
  · rw [freeze_ok_iff loader unfrozen]
    constructor
    · rintro ⟨registry, setup⟩
      obtain ⟨adapters, registers, added⟩ := (run_setup_of_accepts loader accepts s registry).mp setup
      obtain ⟨fresh, nodup⟩ := List.nodup_cons.mp registers.names
      obtain ⟨made, instantiates, -⟩ := registers.keyed
      have known := (setupMods_ok_iff (start adapters) loader.mods).mp ⟨registry, added⟩
      exact ⟨registers.legacyNames, ⟨nodup, fresh⟩, ⟨made, instantiates⟩, fun m member p declared =>
        (contains_of_registers registers _).mp (known m member p declared)⟩
    · rintro ⟨legacyNames, ⟨nodup, fresh⟩, ⟨made, instantiates⟩, known⟩
      obtain ⟨adapters, registers⟩ :=
        exists_registers legacyNames (List.nodup_cons.mpr ⟨fresh, nodup⟩) instantiates
      obtain ⟨registry, added⟩ := (setupMods_ok_iff (start adapters) loader.mods).mpr
        fun m member p declared => (contains_of_registers registers _).mpr (known m member p declared)
      exact ⟨registry, (run_setup_of_accepts loader accepts s registry).mpr ⟨adapters, registers, added⟩⟩
  · intro ok
    obtain ⟨registry, setup⟩ := (freeze_ok_iff loader unfrozen s).mp ok
    have entrypoints := entrypoints_of_setup loader unfrozen setup
    obtain ⟨adapters, registers, added⟩ := (run_setup_of_accepts loader accepts s registry).mp setup
    obtain ⟨same, numbered, listed⟩ := gives_setupMods (start adapters) added
    obtain rfl : registry.adapters = adapters := same
    refine ⟨registry, entrypoints, registers, fun key => ⟨listed key, ?_⟩, answers_of_entrypoints entrypoints⟩
    rw [numbered.numbers_under]
    exact numbered.increasing key

/-- A mod with an adapter of its own, which it uses, and an old-style initializer. -/
def selfContained : ModMetadata where
  id := "a"
  version := "1"
  legacyInitializers := ["Old"]
  entrypoints := Dict.insert ∅ "main" [⟨"shared", "New"⟩, ⟨"default", "Other"⟩]
  languageAdapters := Dict.insert ∅ "shared" "SharedAdapter"

theorem freeze_outcome_selfContained :
    let loader : ModLoader Unit String := {
      config := {}
      mappings := none
      host := {
        factories := ({} : AdapterFactories Unit String).withConstructor "SharedAdapter"
          fun host => (.ok fun _ value capability => .finish (.ok ⟨capability, value⟩), host)
        publish := fun _ => pure (.ok ()) }
      mods := [⟨selfContained, some "a.jar", false⟩] }
    (loader.freeze.run ()).1.2 = .ok () := by
  intro loader
  have instantiates : ∃ made, Instantiates loader.host (declaredAdapters loader.mods) () made :=
    ⟨_, .cons rfl rfl (.nil ())⟩
  refine (freeze_outcome loader rfl (fun _ _ => rfl) ()).1.mpr
    ⟨List.nodup_nil, ⟨?_, ?_⟩, instantiates, ?_⟩ <;> decide

end ModRemap.ModLoader
