import Mathlib
import ModRemap.Proofs.LoaderSetup

/-! What a loader goes through. Until it is frozen mods are added to the end; once it is, nothing about
it changes any more, whether or not freezing has succeeded. -/

namespace ModRemap.ModLoader

variable {σ ι : Type} (loader : ModLoader σ ι)

/-- A call that may change a loader, and what it meets: the files there are, or the state of the host. -/
inductive Call (σ : Type) where
  | load (artifacts : List Artifact) (files : Files)
  | freeze (host : σ)

def Call.Freezes (call : Call σ) : Prop := ∃ host, call = .freeze host

def perform (loader : ModLoader σ ι) : Call σ → ModLoader σ ι × Except LoaderError Unit
  | .load artifacts files => ((loader.load artifacts files).1, (loader.load artifacts files).2.2)
  | .freeze host => (loader.freeze.run host).1

def after (loader : ModLoader σ ι) (calls : List (Call σ)) : ModLoader σ ι :=
  calls.foldl (fun loader call => (loader.perform call).1) loader

/-! ### Freezing -/

/-- The loader once its setup has come to an end. -/
def settled : Except LoaderError (EntrypointRegistry σ ι) → ModLoader σ ι
  | .ok registry => { loader with frozen := true, entrypoints := some registry }
  | .error _ => { loader with frozen := true }

theorem freeze_of_frozen (frozen : loader.frozen = true) :
    loader.freeze = pure (loader, .error .alreadyFrozen) := by
  rw [freeze, if_pos frozen]

theorem freeze_of_open (unfrozen : loader.frozen = false) :
    loader.freeze =
      (fun result => (loader.settled result, result.map fun _ => ())) <$> loader.setup.run := by
  rw [freeze, if_neg (ne_true_of_eq_false unfrozen), map_eq_pure_bind]
  refine congrArg (loader.setup.run >>= ·) (funext fun result => ?_)
  cases result <;> rfl

theorem kept_settled (result : Except LoaderError (EntrypointRegistry σ ι)) :
    (loader.settled result).frozen = true ∧ (loader.settled result).mods = loader.mods ∧
      (loader.settled result).known = loader.known := by
  cases result <;> exact ⟨rfl, rfl, rfl⟩

theorem entrypoints_settled {result : Except LoaderError (EntrypointRegistry σ ι)}
    (failed : (result.map fun _ => ()) ≠ .ok ()) :
    (loader.settled result).entrypoints = loader.entrypoints := by
  cases result with
  | ok registry => exact absurd rfl failed
  | error e => rfl

/-- The first call is never told that there has been another. -/
theorem freeze_ne_alreadyFrozen (unfrozen : loader.frozen = false) (s : σ) :
    (loader.freeze.run s).1.2 ≠ .error .alreadyFrozen := by
  rw [freeze_of_open loader unfrozen]
  show (loader.setup.run.run s).1.map (fun _ => ()) ≠ .error .alreadyFrozen
  intro same
  cases result : (loader.setup.run.run s).1 with
  | ok registry => cases result ▸ same
  | error e =>
    rw [result] at same
    exact fails_setup loader s e result (Except.error.inj same)

theorem kept_freeze (s : σ) :
    (loader.freeze.run s).1.1.frozen = true ∧ (loader.freeze.run s).1.1.mods = loader.mods ∧
      (loader.freeze.run s).1.1.known = loader.known := by
  cases frozen : loader.frozen with
  | true =>
    rw [freeze_of_frozen loader frozen]
    exact ⟨frozen, rfl, rfl⟩
  | false =>
    rw [freeze_of_open loader frozen]
    exact kept_settled loader (loader.setup.run.run s).1

theorem entrypoints_freeze (unfrozen : loader.frozen = false) {s : σ}
    (failed : (loader.freeze.run s).1.2 ≠ .ok ()) :
    (loader.freeze.run s).1.1.entrypoints = loader.entrypoints := by
  rw [freeze_of_open loader unfrozen] at failed ⊢
  exact entrypoints_settled loader failed

/-! ### Loading -/

theorem load_of_frozen (frozen : loader.frozen = true) (artifacts : List Artifact) (files : Files) :
    loader.load artifacts files = (loader, files, .error .frozen) :=
  if_pos frozen

/-- Only mods come to a loader, behind those that it has. -/
structure Gains (loader loader' : ModLoader σ ι) : Prop where
  mods : loader.mods <+: loader'.mods
  config : loader'.config = loader.config
  host : loader'.host = loader.host
  frozen : loader'.frozen = loader.frozen
  entrypoints : loader'.entrypoints = loader.entrypoints

namespace Gains

variable {loader loader' loader'' : ModLoader σ ι}

theorem refl (loader : ModLoader σ ι) : loader.Gains loader := ⟨List.prefix_rfl, rfl, rfl, rfl, rfl⟩

theorem trans (h : loader.Gains loader') (h' : loader'.Gains loader'') : loader.Gains loader'' :=
  ⟨h.mods.trans h'.mods, h'.config.trans h.config, h'.host.trans h.host, h'.frozen.trans h.frozen,
    h'.entrypoints.trans h.entrypoints⟩

theorem addMod (loader : ModLoader σ ι) (m : ModContainer) : loader.Gains (loader.addMod m) :=
  ⟨List.prefix_append _ _, rfl, rfl, rfl, rfl⟩

end Gains

theorem gains_register (files : Files) (artifacts : List Artifact) :
    loader.Gains (loader.register files artifacts).1 := by
  induction artifacts generalizing loader files with
  | nil => exact .refl loader
  | cons a rest ih =>
    unfold register
    split
    · split
      · exact .refl loader
      · exact (Gains.addMod loader _).trans (ih _ _)
    · exact (Gains.addMod loader _).trans (ih _ _)

theorem gains_load (artifacts : List Artifact) (files : Files) :
    loader.Gains (loader.load artifacts files).1 := by
  unfold load
  split
  · exact .refl loader
  · dsimp only
    split
    · exact .refl loader
    · exact gains_register loader _ _

/-! ### Calls -/

theorem after_append (calls calls' : List (Call σ)) :
    loader.after (calls ++ calls') = (loader.after calls).after calls' :=
  List.foldl_append

theorem after_of_frozen (frozen : loader.frozen = true) (calls : List (Call σ)) :
    loader.after calls = loader := by
  induction calls with
  | nil => rfl
  | cons call rest ih =>
    have same : (loader.perform call).1 = loader := by
      cases call with
      | load artifacts files => exact congrArg Prod.fst (load_of_frozen loader frozen artifacts files)
      | freeze host =>
        show (loader.freeze.run host).1.1 = loader
        rw [freeze_of_frozen loader frozen]
        rfl
    show (loader.perform call).1.after rest = loader
    rw [same, ih]

theorem gains_after {calls : List (Call σ)} (loads : ∀ call ∈ calls, ¬ call.Freezes) :
    loader.Gains (loader.after calls) := by
  induction calls generalizing loader with
  | nil => exact .refl loader
  | cons call rest ih =>
    have others := fun loader => ih loader fun call member => loads call (List.mem_cons_of_mem _ member)
    cases call with
    | load artifacts files => exact (gains_load loader artifacts files).trans (others _)
    | freeze host => exact absurd ⟨host, rfl⟩ (loads _ List.mem_cons_self)

theorem after_freeze (s : σ) (later : List (Call σ)) :
    loader.after (.freeze s :: later) = (loader.freeze.run s).1.1 :=
  after_of_frozen _ (kept_freeze loader s).1 later

theorem frozen_after {calls : List (Call σ)} (freezes : ∃ call ∈ calls, call.Freezes) :
    (loader.after calls).frozen = true := by
  obtain ⟨_, member, s, rfl⟩ := freezes
  obtain ⟨before, later, rfl⟩ := List.append_of_mem member
  rw [after_append, after_freeze]
  exact (kept_freeze _ s).1

/-- Nothing is found. -/
def Empty : Prop :=
  ∀ key capability, loader.instances key capability = pure (.ok []) ∧
    loader.containers key capability = pure []

theorem empty_of_none (none : loader.entrypoints = none) : loader.Empty := by
  intro key capability
  rw [instances, containers, none]
  exact ⟨rfl, rfl⟩

/-- The same loader in a host that puts paths on the class path in another way. -/
def withPublish (publish : String → StateM σ (Except String Unit)) : ModLoader σ ι :=
  { loader with host := { loader.host with publish } }

/-- Freezing hands over the paths of the mods in their order until one is refused. What it does after
that does not depend on how paths are handed over. -/
def HandsOver : Prop :=
  ∃ rest, ∀ publish, (loader.withPublish publish).freeze =
    (fun result => ((loader.withPublish publish).settled result, result.map fun _ => ())) <$>
      (handOver publish (loader.mods.filterMap (unpublished? loader.config)) >>= continued rest)

theorem handsOver_of_open (unfrozen : loader.frozen = false) : loader.HandsOver := by
  refine ⟨loader.setupRegistry.run, fun publish => ?_⟩
  rw [freeze_of_open (loader.withPublish publish) unfrozen, run_setup]
  rfl

/-- All that calls can do to a loader: which of them fail, what they change, and what freezing hands over. -/
theorem life_cycle (config : LoaderConfig) (mappings : Option MappingIndex) (host : Host σ ι)
    (calls : List (Call σ)) :
    let start : ModLoader σ ι := { config, mappings, host }
    let loader := start.after calls
    (∀ s, (loader.freeze.run s).1.2 = .error .alreadyFrozen ↔ ∃ call ∈ calls, call.Freezes) ∧
      ((∀ call ∈ calls, ¬ call.Freezes) → loader.Empty ∧ loader.HandsOver ∧
        ∀ artifacts files, loader.mods <+: (loader.load artifacts files).1.mods) ∧
      ((∃ call ∈ calls, call.Freezes) → loader.freeze = pure (loader, .error .alreadyFrozen) ∧
        ∀ artifacts files, loader.load artifacts files = (loader, files, .error .frozen)) ∧
      ∀ before s later, calls = before ++ .freeze s :: later →
        loader.mods = (start.after before).mods ∧ loader.known = (start.after before).known ∧
          ((∀ call ∈ before, ¬ call.Freezes) → ((start.after before).freeze.run s).1.2 ≠ .ok () →
            loader.Empty) := by
  intro start loader
  have opened {before : List (Call σ)} (loads : ∀ call ∈ before, ¬ call.Freezes) :=
    gains_after start loads
  refine ⟨fun s => ⟨fun told => ?_, fun freezes => ?_⟩, fun loads => ⟨?_, ?_, ?_⟩,
    fun freezes => ⟨?_, ?_⟩, fun before s later split => ?_⟩
  · by_contra loads
    push Not at loads
    exact freeze_ne_alreadyFrozen loader (opened loads).frozen s told
  · rw [freeze_of_frozen loader (frozen_after start freezes)]
    rfl
  · exact empty_of_none loader (opened loads).entrypoints
  · exact handsOver_of_open loader (opened loads).frozen
  · exact fun artifacts files => (gains_load loader artifacts files).mods
  · exact freeze_of_frozen loader (frozen_after start freezes)
  · exact load_of_frozen loader (frozen_after start freezes)
  · have last : loader = ((start.after before).freeze.run s).1.1 := by
      rw [← after_freeze _ s later, ← after_append, ← split]
    obtain ⟨-, mods, known⟩ := kept_freeze (start.after before) s
    rw [last]
    refine ⟨mods, known, fun loads failed => empty_of_none _ ?_⟩
    rw [entrypoints_freeze _ (opened loads).frozen failed]
    exact (opened loads).entrypoints

end ModRemap.ModLoader
