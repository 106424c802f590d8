import Mathlib
import ModRemap.Entrypoints.Registry
import ModRemap.Mods.Metadata
import ModRemap.Proofs.Dict

/-! What comes under a key, and in which order. Declarations get increasing numbers, and each key lists
those that are declared under it as they come. -/

namespace ModRemap.EntrypointRegistry

variable {σ ι : Type} (registry : EntrypointRegistry σ ι)

/-- The numbers of the declarations under a key. -/
def numbers (key : String) : List Nat := (registry.hooks.get? key).getD []

/-- Every number has been given to a declaration, and under a key they increase. -/
structure Numbered : Prop where
  increasing : ∀ key, (registry.numbers key).Pairwise (· < ·)
  given : ∀ key, ∀ number ∈ registry.numbers key, number < registry.declarations.length

theorem get?_hook (hooks : Dict String (List Nat)) (number : Nat) (key key' : String) :
    ((hook hooks number key).get? key').getD [] =
      (hooks.get? key').getD [] ++ if key' = key then [number] else [] := by
  rw [hook, Dict.update, Dict.get?_insert]
  split_ifs with same
  · rw [same]
    rfl
  · exact (List.append_nil _).symm

theorem numbers_declare {keys : List String} (distinct : keys.Nodup) (d : Declaration σ ι)
    (key : String) : (registry.declare keys d).numbers key =
      registry.numbers key ++ if key ∈ keys then [registry.declarations.length] else [] := by
  have fold (hooks : Dict String (List Nat)) (number : Nat) :
      ((keys.foldl (fun hooks key => hook hooks number key) hooks).get? key).getD [] =
        (hooks.get? key).getD [] ++ if key ∈ keys then [number] else [] := by
    induction keys generalizing hooks with
    | nil => exact (List.append_nil _).symm
    | cons first rest ih =>
      obtain ⟨fresh, distinct⟩ := List.nodup_cons.mp distinct
      rw [List.foldl_cons, ih distinct, get?_hook]
      by_cases same : key = first
      · rw [if_pos same, if_neg (same ▸ fresh), if_pos (same ▸ List.mem_cons_self), List.append_nil]
      · simp only [same, if_false, List.append_nil, List.mem_cons, false_or]
  exact fold registry.hooks registry.declarations.length

namespace Numbered

variable {registry}

theorem declare (h : registry.Numbered) {keys : List String} (distinct : keys.Nodup)
    (d : Declaration σ ι) : (registry.declare keys d).Numbered where
  increasing key := by
    rw [numbers_declare registry distinct]
    split_ifs
    · refine List.pairwise_append.mpr ⟨h.increasing key, List.pairwise_singleton _ _, ?_⟩
      rintro n member _ last
      exact List.mem_singleton.mp last ▸ h.given key n member
    · rw [List.append_nil]
      exact h.increasing key
  given key n member := by
    have length : (registry.declare keys d).declarations.length = registry.declarations.length + 1 :=
      List.length_append
    rw [numbers_declare registry distinct, List.mem_append] at member
    rw [length]
    rcases member with before | last
    · exact Nat.lt_succ_of_lt (h.given key n before)
    · split_ifs at last
      · rw [List.mem_singleton.mp last]
        exact Nat.lt_succ_self _
      · cases last

theorem under_declare (h : registry.Numbered) {keys : List String} (distinct : keys.Nodup)
    (d : Declaration σ ι) (key : String) : (registry.declare keys d).under key =
      registry.under key ++ if key ∈ keys then [(registry.declarations.length, d)] else [] := by
  have before : ∀ n ∈ registry.numbers key, (registry.declare keys d).declarations[n]? =
      registry.declarations[n]? :=
    fun n member => List.getElem?_append_left (h.given key n member)
  show ((registry.declare keys d).numbers key).filterMap _ = (registry.numbers key).filterMap _ ++ _
  rw [numbers_declare registry distinct, List.filterMap_append]
  congr 1
  · exact List.filterMap_congr fun n member => by rw [before n member]
  · split_ifs
    · have last : (registry.declare keys d).declarations[registry.declarations.length]? = some d :=
        List.getElem?_concat_length
      simp only [List.filterMap_cons, last, Option.map_some, List.filterMap_nil]
    · rfl

theorem numbers_under (h : registry.Numbered) (key : String) :
    (registry.under key).map Prod.fst = registry.numbers key := by
  show ((registry.numbers key).filterMap _).map _ = _
  rw [List.map_filterMap]
  refine (List.filterMap_congr fun n member => ?_).trans List.filterMap_some
  rw [List.getElem?_eq_getElem (h.given key n member)]
  rfl

end Numbered

theorem numbered_start (adapters : AdapterRegistry σ ι) :
    ({ adapters } : EntrypointRegistry σ ι).Numbered where
  increasing _ := List.Pairwise.nil
  given _ _ member := by cases member

theorem nodup_legacyKeys : legacyKeys.Nodup := by decide

/-! ### Listing -/

/-- The declarations under a key. -/
def listed (key : String) : List (Option (Declaration σ ι)) := (registry.under key).map fun p => some p.2

/-- A declaration comes with the adapter that it names, if there is one. -/
def keyedDeclaration? (adapters : AdapterRegistry σ ι) (modId : String) (d : EntrypointDeclaration) :
    Option (Declaration σ ι) :=
  (adapters.keyed.get? d.adapter).map (.keyed modId d.value)

/-- What comes to a registry under each key, behind what there is. -/
structure Gives (registry registry' : EntrypointRegistry σ ι)
    (more : String → List (Option (Declaration σ ι))) : Prop where
  adapters : registry'.adapters = registry.adapters
  numbered : registry'.Numbered
  listed : ∀ key, registry'.listed key = registry.listed key ++ more key

namespace Gives

variable {registry registry' registry'' : EntrypointRegistry σ ι}
  {more more' : String → List (Option (Declaration σ ι))}

theorem refl (h : registry.Numbered) : registry.Gives registry fun _ => [] :=
  ⟨rfl, h, fun _ => (List.append_nil _).symm⟩

theorem trans (h : registry.Gives registry' more) (h' : registry'.Gives registry'' more') :
    registry.Gives registry'' fun key => more key ++ more' key where
  adapters := h'.adapters.trans h.adapters
  numbered := h'.numbered
  listed key := by rw [h'.listed, h.listed, List.append_assoc]

theorem congr (h : registry.Gives registry' more) (same : ∀ key, more key = more' key) :
    registry.Gives registry' more' :=
  ⟨h.adapters, h.numbered, fun key => same key ▸ h.listed key⟩

theorem declare (h : registry.Numbered) {keys : List String} (distinct : keys.Nodup)
    (d : Declaration σ ι) :
    registry.Gives (registry.declare keys d) fun key => if key ∈ keys then [some d] else [] where
  adapters := rfl
  numbered := h.declare distinct d
  listed key := by
    rw [EntrypointRegistry.listed, h.under_declare distinct, List.map_append]
    split_ifs <;> rfl

/-- Old-style declarations come under each of their keys. -/
theorem addLegacy (h : registry.Numbered) (modId classRef : String) (values : List String) :
    registry.Gives (values.foldl (fun r value => r.addLegacy modId classRef value) registry) fun key =>
      if key ∈ legacyKeys then values.map fun value => some (.legacy modId value classRef) else [] := by
  induction values generalizing registry with
  | nil =>
    refine (refl h).congr fun key => ?_
    split_ifs <;> rfl
  | cons value rest ih =>
    have first := declare h nodup_legacyKeys (.legacy modId value classRef)
    refine (first.trans (ih first.numbered)).congr fun key => ?_
    split_ifs <;> rfl

/-- Keyed declarations come under their keys if all adapters are there. -/
theorem add (h : registry.Numbered) (modId : String) {l : List (String × EntrypointDeclaration)}
    (added : l.foldlM (fun r p => r.add modId p.1 p.2.adapter p.2.value) registry = .ok registry') :
    registry.Gives registry' fun key =>
      (l.filter fun p => p.1 = key).map fun p => keyedDeclaration? registry.adapters modId p.2 := by
  induction l generalizing registry with
  | nil =>
    obtain rfl := Except.ok.inj added
    exact .refl h
  | cons p rest ih =>
    rw [List.foldlM_cons] at added
    cases known : registry.adapters.keyed.get? p.2.adapter with
    | none =>
      rw [EntrypointRegistry.add, known] at added
      cases added
    | some adapter =>
      rw [EntrypointRegistry.add, known] at added
      have first := declare h (List.nodup_singleton p.1) (.keyed modId p.2.value adapter)
      refine (first.trans (ih first.numbered added)).congr fun key => ?_
      have here : keyedDeclaration? registry.adapters modId p.2 =
          some (.keyed modId p.2.value adapter) := by
        rw [keyedDeclaration?, known, Option.map_some]
      rw [first.adapters, List.filter_cons]
      by_cases same : p.1 = key
      · rw [if_pos (List.mem_singleton.mpr same.symm), if_pos (decide_eq_true same), List.map_cons, here]
        rfl
      · rw [if_neg fun member => same (List.mem_singleton.mp member).symm,
          if_neg fun equal => same (of_decide_eq_true equal), List.nil_append]

end Gives

theorem add_ok_iff (modId : String) (l : List (String × EntrypointDeclaration)) :
    (∃ registry', l.foldlM (fun r p => r.add modId p.1 p.2.adapter p.2.value) registry = .ok registry') ↔
      ∀ p ∈ l, registry.adapters.keyed.contains p.2.adapter = true := by
  induction l generalizing registry with
  | nil => exact iff_of_true ⟨registry, rfl⟩ fun p member => by cases member
  | cons p rest ih =>
    rw [List.foldlM_cons, List.forall_mem_cons, Dict.contains_iff]
    cases known : registry.adapters.keyed.get? p.2.adapter with
    | none =>
      rw [EntrypointRegistry.add, known]
      refine iff_of_false ?_ ?_
      · rintro ⟨_, added⟩
        cases added
      · rintro ⟨⟨_, there⟩, -⟩
        cases there
    | some adapter =>
      rw [EntrypointRegistry.add, known]
      refine (ih (registry.declare [p.1] (.keyed modId p.2.value adapter))).trans ?_
      exact (and_iff_right ⟨adapter, rfl⟩).symm

end ModRemap.EntrypointRegistry
