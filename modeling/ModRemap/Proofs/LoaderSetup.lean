import Mathlib
import ModRemap.Loader.ModLoader

/-! Setting a loader up. First the paths of mods are handed over, one after the other, and nothing that
comes later hands over any. -/

namespace ModRemap.ModLoader

variable {σ ι α β : Type} (loader : ModLoader σ ι)

/-! ### Handing over paths -/

/-- Hands over paths until one is refused. -/
def handOver (publish : String → StateM σ (Except String Unit)) :
    List String → StateM σ (Except (String × String) Unit)
  | [] => return .ok ()
  | path :: rest => do
    match ← publish path with
    | .ok () => handOver publish rest
    | .error cause => return .error (path, cause)

theorem run_handOver_cons (publish : String → StateM σ (Except String Unit)) (path : String)
    (rest : List String) (s : σ) :
    (handOver publish (path :: rest)).run s = match ((publish path).run s).1 with
      | .ok () => (handOver publish rest).run ((publish path).run s).2
      | .error cause => (.error (path, cause), ((publish path).run s).2) := by
  have step : (handOver publish (path :: rest)).run s = (match ((publish path).run s).1 with
      | .ok () => handOver publish rest
      | .error cause => return .error (path, cause)).run ((publish path).run s).2 := rfl
  rw [step]
  cases ((publish path).run s).1 <;> rfl

/-- What is done after paths have been handed over. -/
def continued (rest : StateM σ (Except LoaderError α)) :
    Except (String × String) Unit → StateM σ (Except LoaderError α)
  | .ok () => rest
  | .error refused => return .error (.classpath refused.1 refused.2)

/-- The path of a mod, unless it is on the class path already. -/
def unpublished? (config : LoaderConfig) (m : ModContainer) : Option String :=
  if m.builtin || m.id = config.loaderId then none else m.path

theorem publishPaths_cons (host : Host σ ι) (config : LoaderConfig) (m : ModContainer)
    (mods : List ModContainer) :
    publishPaths host config (m :: mods) = (match unpublished? config m with
      | none => pure ()
      | some path => callHost (.classpath path) (host.publish path)) >>= fun _ =>
        publishPaths host config mods := by
  refine congrArg (· >>= fun _ => publishPaths host config mods) ?_
  cases path : m.path with
  | none => simp [unpublished?, path]
  | some path => cases onPath : m.builtin || decide (m.id = config.loaderId) <;> simp [unpublished?, path, onPath]

/-- What a call of the host leads to. -/
theorem run_callHost_bind (wrap : String → LoaderError) (act : StateM σ (Except String α))
    (rest : α → Setup σ β) (s : σ) :
    (callHost wrap act >>= rest).run.run s = match (act.run s).1 with
      | .ok a => (rest a).run.run (act.run s).2
      | .error cause => (.error (wrap cause), (act.run s).2) := by
  have run : (callHost wrap act >>= rest).run.run s = match (act.run s).1.mapError wrap with
      | .ok a => (rest a).run.run (act.run s).2
      | .error e => (.error e, (act.run s).2) := by
    show (ExceptT.bindCont (fun a => rest a) ((act.run s).1.mapError wrap)).run (act.run s).2 = _
    cases (act.run s).1.mapError wrap <;> rfl
  rw [run]
  cases (act.run s).1 <;> rfl

theorem run_publishPaths (host : Host σ ι) (config : LoaderConfig) (mods : List ModContainer)
    (rest : Setup σ α) :
    (publishPaths host config mods >>= fun _ => rest).run =
      handOver host.publish (mods.filterMap (unpublished? config)) >>= continued rest.run := by
  induction mods with
  | nil => rfl
  | cons m mods ih =>
    rw [publishPaths_cons, bind_assoc]
    cases path : unpublished? config m with
    | none =>
      rw [List.filterMap_cons_none path, ← ih]
      rfl
    | some path' =>
      rw [List.filterMap_cons_some path]
      funext s
      refine (run_callHost_bind _ _ _ s).trans ?_
      rw [ih]
      show _ = (continued rest.run ((handOver host.publish (path' :: _)).run s).1).run
        ((handOver host.publish (path' :: _)).run s).2
      rw [run_handOver_cons]
      cases ((host.publish path').run s).1 <;> rfl

/-- The adapters and the entrypoints, once all paths are handed over. -/
def setupRegistry : Setup σ (EntrypointRegistry σ ι) := do
  let adapters ← setupAdapters loader.host loader.mods
  ExceptT.mk (pure (loader.mods.foldlM setupMod { adapters }))

theorem run_setup : loader.setup.run =
    handOver loader.host.publish (loader.mods.filterMap (unpublished? loader.config)) >>=
      continued loader.setupRegistry.run :=
  run_publishPaths loader.host loader.config loader.mods loader.setupRegistry

/-! ### Failures -/

/-- Every failure of a setup is as told. -/
def Setup.Fails (P : LoaderError → Prop) (x : Setup σ α) : Prop :=
  ∀ s e, (x.run.run s).1 = .error e → P e

namespace Setup.Fails

variable {P : LoaderError → Prop}

theorem bind {x : Setup σ α} {f : α → Setup σ β} (hx : Fails P x) (hf : ∀ a, Fails P (f a)) :
    Fails P (x >>= f) := by
  intro s e
  show ((ExceptT.bindCont f (x.run.run s).1).run (x.run.run s).2).1 = .error e → P e
  cases first : (x.run.run s).1 with
  | ok a => exact hf a _ e
  | error e' =>
    intro same
    obtain rfl := Except.error.inj same
    exact hx s e' first

theorem mk {result : Except LoaderError α} (h : ∀ e, result = .error e → P e) :
    Fails (σ := σ) P (ExceptT.mk (pure result)) :=
  fun _ => h

theorem callHost {wrap : String → LoaderError} {act : StateM σ (Except String α)}
    (h : ∀ cause, P (wrap cause)) : Fails P (callHost wrap act) := by
  intro s e
  show (act.run s).1.mapError wrap = .error e → P e
  cases (act.run s).1 with
  | ok a => exact fun same => by cases same
  | error cause =>
    intro same
    obtain rfl := Except.error.inj same
    exact h cause

theorem setupStep {wrap : SetupError → LoaderError} {result : Except SetupError α}
    (h : ∀ cause, P (wrap cause)) : Fails (σ := σ) P (setupStep wrap result) := by
  refine mk fun e same => ?_
  cases result with
  | ok a => cases same
  | error cause =>
    obtain rfl := Except.error.inj same
    exact h cause

theorem foldlM {f : β → α → Setup σ β} (h : ∀ b a, Fails P (f b a)) (l : List α) (b : β) :
    Fails P (l.foldlM f b) := by
  induction l generalizing b with
  | nil => exact mk fun e same => by cases same
  | cons a rest ih =>
    rw [List.foldlM_cons]
    exact (h b a).bind ih

end Setup.Fails

theorem run_declareAdapter (host : Host σ ι) (adapters : AdapterRegistry σ ι)
    (key implementation : String) (s : σ) :
    (declareAdapter host adapters (key, implementation)).run.run s =
      if adapters.keyed.contains key then (.error (.setup (.duplicateKey key)), s)
      else match host.factories.constructors.get? implementation with
        | none => (.error (.unknownImplementation key implementation), s)
        | some constructor => match (constructor.run s).1 with
          | .error cause => (.error (.adapterInstantiation key cause), (constructor.run s).2)
          | .ok adapter => (.ok { adapters with keyed := adapters.keyed.insert key adapter },
            (constructor.run s).2) := by
  cases taken : adapters.keyed.contains key with
  | true =>
    simp only [declareAdapter, taken]
    rfl
  | false =>
    simp only [declareAdapter, taken]
    cases host.factories.constructors.get? implementation with
    | none => rfl
    | some constructor =>
      refine (run_callHost_bind _ _ _ s).trans ?_
      simp only [Bool.false_eq_true, if_false]
      cases (constructor.run s).1 with
      | error cause => rfl
      | ok adapter =>
        simp [setupStep, AdapterRegistry.register, taken]
        rfl

theorem fails_declareAdapter (host : Host σ ι) (adapters : AdapterRegistry σ ι)
    (declared : String × String) : (declareAdapter host adapters declared).Fails (· ≠ .alreadyFrozen) := by
  rintro s e failed rfl
  rw [run_declareAdapter] at failed
  split at failed
  · cases failed
  · split at failed
    · cases failed
    · split at failed <;> cases failed

theorem error_of_foldlM {ε : Type} {f : β → α → Except ε β} {l : List α} {b : β} {e : ε}
    (failed : l.foldlM f b = .error e) : ∃ b, ∃ a ∈ l, f b a = .error e := by
  induction l generalizing b with
  | nil => cases failed
  | cons a rest ih =>
    rw [List.foldlM_cons] at failed
    cases first : f b a with
    | error e' =>
      rw [first] at failed
      exact ⟨b, a, List.mem_cons_self, first.trans failed⟩
    | ok b' =>
      rw [first] at failed
      obtain ⟨b'', a', member, found⟩ := ih failed
      exact ⟨b'', a', List.mem_cons_of_mem _ member, found⟩

theorem exists_of_mapError {ε ε' : Type} {f : ε → ε'} {result : Except ε α} {e : ε'}
    (failed : result.mapError f = .error e) : ∃ cause, e = f cause := by
  cases result with
  | ok a => cases failed
  | error cause => exact ⟨cause, (Except.error.inj failed).symm⟩

theorem fails_setupRegistry : loader.setupRegistry.Fails (· ≠ .alreadyFrozen) := by
  have adapters : (setupAdapters loader.host loader.mods).Fails (· ≠ .alreadyFrozen) := by
    refine .bind (.setupStep fun cause same => by cases same) fun adapters => ?_
    refine .bind (.foldlM (fun _ _ => .setupStep fun cause same => by cases same) _ _) fun adapters => ?_
    exact .foldlM (fails_declareAdapter loader.host) _ _
  refine adapters.bind fun adapters => .mk fun e failed => ?_
  obtain ⟨registry, m, -, failed⟩ := error_of_foldlM failed
  obtain ⟨cause, rfl⟩ := exists_of_mapError failed
  exact fun same => by cases same

theorem fails_publishPaths (host : Host σ ι) (config : LoaderConfig) (mods : List ModContainer) :
    (publishPaths host config mods).Fails (· ≠ .alreadyFrozen) := by
  induction mods with
  | nil => exact .mk fun e same => by cases same
  | cons m mods ih =>
    rw [publishPaths_cons]
    refine .bind ?_ fun _ => ih
    cases unpublished? config m with
    | none => exact .mk fun e same => by cases same
    | some path => exact .callHost fun cause same => by cases same

/-- Only the second attempt at freezing is told that there has been one. -/
theorem fails_setup : loader.setup.Fails (· ≠ .alreadyFrozen) :=
  .bind (fails_publishPaths loader.host loader.config loader.mods) fun _ => fails_setupRegistry loader

end ModRemap.ModLoader
