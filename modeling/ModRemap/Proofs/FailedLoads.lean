import Mathlib
import ModRemap.Proofs.LoadOrder

/-! Loads that fail. When nothing can be remapped the loader stays as it is. When a mod cannot be written
out, those in front of it have been added by then and stay, so that a load that is tried again adds them
once more. -/

namespace ModRemap.ModLoader

variable {σ ι : Type} (loader : ModLoader σ ι)

/-- All that is asked about the mods of a loader is answered as another one answers it. -/
structure AnswersLike (loader' : ModLoader σ ι) : Prop where
  mods : loader'.mods = loader.mods
  found : ∀ id, loader'.mod? id = loader.mod? id
  loaded : ∀ id, loader'.isModLoaded id = loader.isModLoaded id
  weave : ∀ env, loader'.weaveConfigs env = loader.weaveConfigs env

theorem answersLike_addMods_iff (mods : List ModContainer) :
    loader.AnswersLike (loader.addMods mods) ↔ mods = [] := by
  constructor
  · intro same
    have none := same.mods
    rw [mods_addMods] at none
    exact List.append_right_eq_self.mp none
  · rintro rfl
    exact ⟨rfl, fun _ => rfl, fun _ => rfl, fun _ => rfl⟩

theorem config_addMods (mods : List ModContainer) : (loader.addMods mods).config = loader.config := by
  induction mods generalizing loader with
  | nil => rfl
  | cons m mods ih => exact ih (loader.addMod m)

theorem contained_addMods (mods : List ModContainer) :
    (loader.addMods mods).contained = loader.contained := by
  induction mods generalizing loader with
  | nil => rfl
  | cons m mods ih => exact ih (loader.addMod m)

variable {loader} {loader' : ModLoader σ ι} {fs fs' : Files} {artifacts : List Artifact} {e : LoaderError}

/-- A load fails without a trace when the loader is frozen or a jar cannot be remapped. Else it is a mod
in memory that cannot be written out, and just the mods in front of it have been added: nothing shows
exactly if it is the first one. A further load that succeeds adds them again. -/
theorem failed_load (failed : loader.load artifacts fs = (loader', fs', .error e)) :
    loader' = loader ∧ (e = .frozen ∨ ∃ cause, e = .remap cause) ∨
      ∃ before a rest, moveAllLast artifacts loader.config.loadLate = before ++ a :: rest ∧
        e = .extract a.id ∧ loader.remaps a = false ∧ a.isLoose = true ∧
        loader' = loader.addMods (before.map loader.contained) ∧
        loader'.mods = loader.mods ++ before.map loader.contained ∧
        (∀ id, loader'.mod? id =
          ((before.map loader.contained).findRev? fun m => m.Answers id).or (loader.mod? id)) ∧
        (loader.AnswersLike loader' ↔ before = []) ∧
        ∀ fs₁ loader₂ fs₂, loader'.load artifacts fs₁ = (loader₂, fs₂, .ok ()) →
          loader₂.mods = loader.mods ++ (before ++ (before ++ a :: rest)).map loader.contained := by
  have loaded := loader.loaded_load artifacts fs
  rw [failed] at loaded
  generalize order : moveAllLast artifacts loader.config.loadLate = ordered at loaded
  cases loaded with
  | frozen isFrozen => exact .inl ⟨rfl, .inl rfl⟩
  | unmapped cause => exact .inl ⟨rfl, .inr ⟨cause, rfl⟩⟩
  | @upTo before rest a split kept loose =>
    refine .inr ⟨before, a, rest, split, rfl, kept, loose, rfl, loader.mods_addMods _,
      loader.mod?_addMods _, (loader.answersLike_addMods_iff _).trans List.map_eq_nil_iff,
      fun fs₁ loader₂ fs₂ done => ?_⟩
    have again := (loader.addMods (before.map loader.contained)).loaded_load artifacts fs₁
    have done : (loader.addMods (before.map loader.contained)).load artifacts fs₁ =
      (loader₂, fs₂, .ok ()) := done
    rw [done, loader.config_addMods, order, split] at again
    cases again with
    | all =>
      show ((loader.addMods _).addMods _).mods = _
      rw [mods_addMods, mods_addMods, contained_addMods, List.append_assoc, ← List.map_append]

/-- The second of three mods cannot be written out at first, because a directory has its name. The first
one stays, and stands there twice once the directory is out of the way. -/
theorem failed_load_second :
    let memory (id : String) : Artifact :=
      { metadata := { id, version := "1" }, source := .memory (.data (bytesOf id)) }
    let fs : Files := { nodes := Dict.ofList [([".fabric"], .directory),
      ([".fabric", "processedMods"], .directory),
      ([".fabric", "processedMods", "b-1.jar"], .directory)] }
    let host : Host Unit Unit := { factories := {}, publish := fun _ => pure (.ok ()) }
    let loader : ModLoader Unit Unit := { config := { loadLate := ["a"] }, mappings := none, host }
    let batch := [memory "a", memory "c", memory "b"]
    let failed := loader.load batch fs
    let again := failed.1.load batch ∅
    failed.2.2 = .error (.extract "b") ∧ again.2.2 = .ok () ∧
      failed.1.mods.map ModContainer.id = ["c"] ∧
      again.1.mods.map ModContainer.id = ["c", "c", "b", "a"] := by
  intro memory fs host loader batch
  have refused : (loader.load batch fs).2.2 = .error (.extract "b") := by decide +kernel
  have done : ((loader.load batch fs).1.load batch ∅).2.2 = .ok () := by decide +kernel
  have order : moveAllLast batch loader.config.loadLate = [memory "c", memory "b", memory "a"] := by
    decide +kernel
  rcases split : loader.load batch fs with ⟨loader', fs', result⟩
  rw [split] at refused done
  obtain rfl : result = .error (.extract "b") := refused
  dsimp only at done ⊢
  rcases retried : loader'.load batch ∅ with ⟨loader'', fs'', result⟩
  rw [retried] at done
  obtain rfl : result = .ok () := done
  rcases failed_load split with ⟨-, told⟩ | ⟨before, a, rest, parts, told, -, -, -, mods, -, -, further⟩
  · rcases told with told | ⟨cause, told⟩
    · exact nomatch told
    · exact nomatch told
  have named : a.id = "b" := (LoaderError.extract.inj told).symm
  have twice := further ∅ loader'' fs'' retried
  rw [order] at parts
  have front : before = [memory "c"] := by
    have other (id : String) (differs : id ≠ "b") (same : memory id = a) : False :=
      differs ((congrArg Artifact.id same).trans named)
    rcases before with _ | ⟨x, _ | ⟨y, _ | ⟨z, before⟩⟩⟩
    · exact (other "c" (by decide) (List.cons.inj parts).1).elim
    · rw [(List.cons.inj parts).1]
    · exact (other "a" (by decide) (List.cons.inj (List.cons.inj (List.cons.inj parts).2).2).1).elim
    · simp at parts
  rw [← parts, front] at twice
  rw [front] at mods
  refine ⟨rfl, rfl, ?_, ?_⟩
  · rw [mods]
    decide +kernel
  · rw [twice]
    decide +kernel

/-- The first mod has been added when the second one fails, and once more when the load is tried again. -/
theorem not_answersLike_of_load :
    let memory (id : String) : Artifact :=
      { metadata := { id, version := "1" }, source := .memory (.data (bytesOf id)) }
    let fs : Files := { nodes := Dict.ofList [([".fabric"], .directory),
      ([".fabric", "processedMods"], .directory),
      ([".fabric", "processedMods", "b-1.jar"], .directory)] }
    let host : Host Unit Unit := { factories := {}, publish := fun _ => pure (.ok ()) }
    let loader : ModLoader Unit Unit := { config := {}, mappings := none, host }
    let failed := loader.load [memory "a", memory "b"] fs
    let again := failed.1.load [memory "a", memory "b"] failed.2.1
    failed.2.2 = .error (.extract "b") ∧ ¬loader.AnswersLike failed.1 ∧
      loader.isModLoaded "a" = false ∧ failed.1.isModLoaded "a" = true ∧
      again.1.mods.map ModContainer.id = ["a", "a"] := by
  intro memory fs host loader failed again
  have before : loader.isModLoaded "a" = false := by decide +kernel
  have after : failed.1.isModLoaded "a" = true := by decide +kernel
  refine ⟨by decide +kernel, fun same => ?_, before, after, by decide +kernel⟩
  rw [same.loaded, before] at after
  exact Bool.false_ne_true after

end ModRemap.ModLoader
