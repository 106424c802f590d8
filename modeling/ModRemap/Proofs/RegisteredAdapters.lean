import Mathlib
import ModRemap.Proofs.Dict
import ModRemap.Proofs.LoaderSetup

/-! The adapters of a loader: the one that every host has, the old-style ones of the host, and those that
mods declare. All of them are registered or the setup fails. -/

namespace ModRemap.ModLoader

variable {σ ι : Type}

theorem run_bind_ok {α β : Type} {x : Setup σ α} {f : α → Setup σ β} {s s' : σ} {a : α}
    (first : x.run.run s = (.ok a, s')) : (x >>= f).run.run s = (f a).run.run s' := by
  show (ExceptT.bindCont f (x.run.run s).1).run (x.run.run s).2 = _
  rw [first]
  rfl

theorem run_bind_error {α β : Type} {x : Setup σ α} {f : α → Setup σ β} {s s' : σ} {e : LoaderError}
    (first : x.run.run s = (.error e, s')) : (x >>= f).run.run s = (.error e, s') := by
  show (ExceptT.bindCont f (x.run.run s).1).run (x.run.run s).2 = _
  rw [first]
  rfl

theorem run_bind_eq_ok {α β : Type} {x : Setup σ α} {f : α → Setup σ β} {s : σ} {b : β} :
    ((x >>= f).run.run s).1 = .ok b ↔
      ∃ a s', x.run.run s = (.ok a, s') ∧ ((f a).run.run s').1 = .ok b := by
  constructor
  · intro done
    rcases first : x.run.run s with ⟨e | a, s'⟩
    · rw [run_bind_error first] at done
      cases done
    · rw [run_bind_ok first] at done
      exact ⟨a, s', rfl, done⟩
  · rintro ⟨a, s', first, rest⟩
    rw [run_bind_ok first]
    exact rest

/-- Keys can be added one after the other if they differ and none of them is there. -/
theorem fresh_insert_iff {κ ν : Type} [DecidableEq κ] {d : Dict κ ν} {k : κ}
    (free : d.contains k = false) (v : ν) (ks : List κ) :
    (ks.Nodup ∧ ∀ k' ∈ ks, (d.insert k v).contains k' = false) ↔
      (k :: ks).Nodup ∧ ∀ k' ∈ k :: ks, d.contains k' = false := by
  have contains (k' : κ) : (d.insert k v).contains k' = false ↔ k' ≠ k ∧ d.contains k' = false := by
    rw [Dict.contains, Dict.keys, Dict.entries_insert_new free, List.map_append]
    simp [Dict.contains, Dict.keys, and_comm]
  simp only [contains, List.nodup_cons, List.forall_mem_cons, free, true_and]
  constructor
  · rintro ⟨nodup, free⟩
    exact ⟨⟨fun member => (free k member).1 rfl, nodup⟩, fun k' member => (free k' member).2⟩
  · rintro ⟨⟨fresh, nodup⟩, free⟩
    exact ⟨nodup, fun k' member => ⟨fun same => fresh (same ▸ member), free k' member⟩⟩

/-- Old-style adapters are registered if no two of them share a name. -/
theorem run_registerLegacy (l : List (String × LegacyAdapter σ ι)) (adapters : AdapterRegistry σ ι)
    (s : σ) : ∃ result, (l.foldlM (fun adapters p => setupStep (σ := σ) .setup
        (adapters.registerLegacy p.1 p.2)) adapters).run.run s = (result, s) ∧
      ((∃ adapters', result = .ok adapters') ↔
        (l.map Prod.fst).Nodup ∧ ∀ k ∈ l.map Prod.fst, adapters.legacy.contains k = false) ∧
      ∀ adapters', result = .ok adapters' → adapters'.keyed = adapters.keyed ∧
        adapters'.legacy.entries = adapters.legacy.entries ++ l := by
  induction l generalizing adapters with
  | nil =>
    refine ⟨.ok adapters, rfl, iff_of_true ⟨adapters, rfl⟩ ⟨List.nodup_nil, fun k member => by cases member⟩,
      fun adapters' same => ?_⟩
    obtain rfl := Except.ok.inj same
    exact ⟨rfl, (List.append_nil _).symm⟩
  | cons p rest ih =>
    rw [List.foldlM_cons, List.map_cons]
    cases taken : adapters.legacy.contains p.1 with
    | true =>
      refine ⟨.error (.setup (.duplicateKey p.1)), run_bind_error ?_, ?_, fun adapters' same => by cases same⟩
      · rw [AdapterRegistry.registerLegacy, if_pos taken]
        rfl
      · refine iff_of_false ?_ fun free => ne_true_of_eq_false (free.2 p.1 List.mem_cons_self) taken
        rintro ⟨_, same⟩
        cases same
    | false =>
      obtain ⟨result, run, ok, holds⟩ :=
        ih { adapters with legacy := adapters.legacy.insert p.1 p.2 }
      refine ⟨result, (run_bind_ok ?_).trans run, ok.trans (fresh_insert_iff taken p.2 _), fun adapters' same => ?_⟩
      · rw [AdapterRegistry.registerLegacy, if_neg (ne_true_of_eq_false taken)]
        rfl
      · obtain ⟨keyed, legacy⟩ := holds adapters' same
        rw [keyed, legacy, Dict.entries_insert_new taken, List.append_assoc]
        exact ⟨rfl, rfl⟩

/-- Makes declared adapters one after the other. Each implementation has a constructor, and that
succeeds. -/
inductive Instantiates (host : Host σ ι) :
    List (String × String) → σ → List (String × LanguageAdapter σ ι) → Prop where
  | nil (s : σ) : Instantiates host [] s []
  | cons {key implementation : String} {constructor : AdapterConstructor σ ι}
      {adapter : LanguageAdapter σ ι} {s s' : σ} {rest : List (String × String)}
      {made : List (String × LanguageAdapter σ ι)}
      (known : host.factories.constructors.get? implementation = some constructor)
      (succeeds : constructor.run s = (.ok adapter, s')) (others : Instantiates host rest s' made) :
      Instantiates host ((key, implementation) :: rest) s ((key, adapter) :: made)

theorem run_declareAdapter_eq_ok {host : Host σ ι} {adapters adapters' : AdapterRegistry σ ι}
    {key implementation : String} {s s' : σ} :
    (declareAdapter host adapters (key, implementation)).run.run s = (.ok adapters', s') ↔
      adapters.keyed.contains key = false ∧ ∃ constructor adapter,
        host.factories.constructors.get? implementation = some constructor ∧
          constructor.run s = (.ok adapter, s') ∧
          adapters' = { adapters with keyed := adapters.keyed.insert key adapter } := by
  rw [run_declareAdapter]
  constructor
  · intro h
    split_ifs at h with taken
    · cases h
    cases known : host.factories.constructors.get? implementation with
    | none =>
      rw [known] at h
      cases h
    | some constructor =>
      rw [known] at h
      dsimp only at h
      cases result : (constructor.run s).1 with
      | error cause =>
        rw [result] at h
        cases h
      | ok adapter =>
        rw [result] at h
        obtain ⟨same, after⟩ := Prod.mk.inj h
        exact ⟨Bool.eq_false_of_not_eq_true taken, constructor, adapter, rfl, Prod.ext result after,
          (Except.ok.inj same).symm⟩
  · rintro ⟨free, constructor, adapter, known, succeeds, rfl⟩
    rw [if_neg (ne_true_of_eq_false free), known]
    dsimp only
    rw [succeeds]

theorem run_declareAdapters (host : Host σ ι) (declared : List (String × String))
    (adapters adapters' : AdapterRegistry σ ι) (s : σ) :
    ((declared.foldlM (declareAdapter host) adapters).run.run s).1 = .ok adapters' ↔
      ∃ made, Instantiates host declared s made ∧ ((declared.map Prod.fst).Nodup ∧
        ∀ k ∈ declared.map Prod.fst, adapters.keyed.contains k = false) ∧
        adapters'.legacy = adapters.legacy ∧
        adapters'.keyed.entries = adapters.keyed.entries ++ made := by
  induction declared generalizing adapters s with
  | nil =>
    refine (Except.ok.injEq adapters adapters').to_iff.trans ⟨?_, ?_⟩
    · rintro rfl
      exact ⟨[], .nil s, ⟨List.nodup_nil, fun k member => by cases member⟩, rfl, (List.append_nil _).symm⟩
    · rintro ⟨made, instantiates, -, legacy, keyed⟩
      cases instantiates
      obtain ⟨keyed', legacy'⟩ := adapters'
      obtain rfl : keyed' = adapters.keyed := Dict.eq_of_entries (keyed.trans (List.append_nil _))
      obtain rfl : legacy' = adapters.legacy := legacy
      rfl
  | cons p rest ih =>
    obtain ⟨key, implementation⟩ := p
    rw [List.foldlM_cons, List.map_cons, run_bind_eq_ok]
    constructor
    · rintro ⟨_, s', first, others⟩
      obtain ⟨taken, constructor, adapter, known, succeeds, rfl⟩ := run_declareAdapter_eq_ok.mp first
      obtain ⟨made, instantiates, free, legacy, keyed⟩ := (ih _ s').mp others
      refine ⟨(key, adapter) :: made, .cons known succeeds instantiates,
        (fresh_insert_iff taken adapter _).mp free, legacy, ?_⟩
      rw [keyed, Dict.entries_insert_new taken, List.append_assoc]
      rfl
    · rintro ⟨_, instantiates, free, legacy, keyed⟩
      obtain _ | ⟨known, succeeds, others⟩ := instantiates
      have taken := free.2 key List.mem_cons_self
      refine ⟨_, _, run_declareAdapter_eq_ok.mpr ⟨taken, _, _, known, succeeds, rfl⟩,
        (ih _ _).mpr ⟨_, others, (fresh_insert_iff taken _ _).mpr free, legacy, ?_⟩⟩
      rw [keyed, Dict.entries_insert_new taken, List.append_assoc]
      rfl

theorem keys_of_instantiates {host : Host σ ι} {declared : List (String × String)} {s : σ}
    {made : List (String × LanguageAdapter σ ι)} (h : Instantiates host declared s made) :
    made.map Prod.fst = declared.map Prod.fst := by
  induction h with
  | nil => rfl
  | cons _ _ _ ih => exact congrArg _ ih

/-- The keys of adapters that mods declare, with the implementations. -/
def declaredAdapters (mods : List ModContainer) : List (String × String) :=
  mods.flatMap fun m => m.metadata.languageAdapters.entries

/-- All adapters there are, if they can be registered. -/
structure Registers (host : Host σ ι) (mods : List ModContainer) (s : σ)
    (adapters : AdapterRegistry σ ι) : Prop where
  legacyNames : (host.factories.legacy.map Prod.fst).Nodup
  names : (defaultAdapter :: (declaredAdapters mods).map Prod.fst).Nodup
  legacy : adapters.legacy.entries = host.factories.legacy
  keyed : ∃ made, Instantiates host (declaredAdapters mods) s made ∧
    adapters.keyed.entries = (defaultAdapter, host.factories.default.adapter) :: made

theorem run_setupAdapters (host : Host σ ι) (mods : List ModContainer) (s : σ)
    (adapters : AdapterRegistry σ ι) :
    ((setupAdapters host mods).run.run s).1 = .ok adapters ↔ Registers host mods s adapters := by
  have first : (setupStep (σ := σ) .setup (({} : AdapterRegistry σ ι).register defaultAdapter
      host.factories.default.adapter)).run.run s =
      (.ok { keyed := Dict.insert ∅ defaultAdapter host.factories.default.adapter }, s) := rfl
  obtain ⟨result, second, ok, holds⟩ := run_registerLegacy (σ := σ) host.factories.legacy
    { keyed := Dict.insert ∅ defaultAdapter host.factories.default.adapter } s
  have free : ∀ k ∈ host.factories.legacy.map Prod.fst,
      (∅ : Dict String (LegacyAdapter σ ι)).contains k = false := fun k _ => rfl
  rw [setupAdapters, run_bind_ok first]
  cases result with
  | error e =>
    rw [run_bind_error second]
    refine iff_of_false (fun same => by cases same) fun h => ?_
    obtain ⟨_, same⟩ := ok.mpr ⟨h.legacyNames, free⟩
    cases same
  | ok middle =>
    obtain ⟨legacyNames, -⟩ := ok.mp ⟨middle, rfl⟩
    obtain ⟨keyed, legacy⟩ := holds middle rfl
    have fresh (ks : List String) : (defaultAdapter :: ks).Nodup ↔
        ks.Nodup ∧ ∀ k ∈ ks, middle.keyed.contains k = false := by
      rw [keyed, fresh_insert_iff rfl host.factories.default.adapter]
      exact (and_iff_left fun k _ => rfl).symm
    rw [run_bind_ok second, run_declareAdapters, ← fresh, keyed]
    constructor
    · rintro ⟨made, instantiates, names, same, entries⟩
      exact ⟨legacyNames, names, (congrArg Dict.entries same).trans legacy, made, instantiates, entries⟩
    · rintro ⟨-, names, same, made, instantiates, entries⟩
      exact ⟨made, instantiates, names, Dict.eq_of_entries (same.trans legacy.symm), entries⟩

theorem contains_of_registers {host : Host σ ι} {mods : List ModContainer} {s : σ}
    {adapters : AdapterRegistry σ ι} (h : Registers host mods s adapters) (key : String) :
    adapters.keyed.contains key = true ↔
      key = defaultAdapter ∨ key ∈ (declaredAdapters mods).map Prod.fst := by
  obtain ⟨made, instantiates, entries⟩ := h.keyed
  rw [Dict.contains, Dict.keys, List.contains_iff_mem, entries, List.map_cons, List.mem_cons,
    keys_of_instantiates instantiates]

/-- Adapters that can be registered at all. -/
theorem exists_registers {host : Host σ ι} {mods : List ModContainer} {s : σ}
    {made : List (String × LanguageAdapter σ ι)}
    (legacyNames : (host.factories.legacy.map Prod.fst).Nodup)
    (names : (defaultAdapter :: (declaredAdapters mods).map Prod.fst).Nodup)
    (instantiates : Instantiates host (declaredAdapters mods) s made) :
    ∃ adapters, Registers host mods s adapters := by
  have keys : (((defaultAdapter, host.factories.default.adapter) :: made).map Prod.fst).Nodup := by
    rw [List.map_cons, keys_of_instantiates instantiates]
    exact names
  exact ⟨⟨⟨_, keys⟩, ⟨host.factories.legacy, legacyNames⟩⟩, legacyNames, names, rfl, made, instantiates, rfl⟩

end ModRemap.ModLoader
