import Mathlib
import ModRemap.Proofs.Dict
import ModRemap.Remap.Resolver

/-! The search through supertypes asks every class that is inherited from, and no other, whatever
cycles the hierarchy has and whatever classes it lacks. -/

namespace ModRemap

namespace Hierarchy

variable {α : Type} {h : Hierarchy} {find : String → Option α}

/-- The second class is the first, or the first inherits from it. -/
def Inherits (h : Hierarchy) : String → String → Prop :=
  Relation.ReflTransGen fun a b => b ∈ h.parents a

/-- No class inherits from itself through others. -/
def Acyclic (h : Hierarchy) : Prop :=
  ∀ a, ¬ Relation.TransGen (fun a b => b ∈ h.parents a) a a

theorem mem_parents_iff {a b : String} :
    b ∈ h.parents a ↔ ∃ header, (a, header) ∈ h.entries ∧ b ∈ header.parents := by
  simp only [parents, ← Dict.get?_eq_some_iff]
  cases h.get? a with
  | none => simp only [List.not_mem_nil, reduceCtorEq, false_and, exists_false]
  | some header => simp only [Option.some.injEq, exists_eq_left']

theorem acyclic_of_rank (rank : String → ℕ)
    (lower : ∀ p ∈ h.entries, ∀ b ∈ p.2.parents, rank b < rank p.1) : h.Acyclic := by
  intro a cycle
  have descends : Relation.TransGen (fun i j : ℕ => j < i) (rank a) (rank a) := by
    refine Relation.TransGen.lift rank (fun b c step => ?_) _ _ cycle
    obtain ⟨header, listed, parent⟩ := mem_parents_iff.mp step
    exact lower _ listed c parent
  rw [Relation.transGen_eq_self] at descends
  exact lt_irrefl _ descends

theorem parents_erase (h : Hierarchy) (a b : String) :
    parents (Dict.erase h a) b = if b = a then [] else h.parents b := by
  rw [parents, Dict.get?_erase]
  split_ifs <;> rfl

theorem inherits_of_erase {a b c : String} (path : Inherits (Dict.erase h a) b c) :
    h.Inherits b c := by
  induction path with
  | refl => exact .refl
  | tail _ step ih =>
    rw [parents_erase] at step
    split_ifs at step
    · exact nomatch step
    · exact ih.tail step

theorem edges_eq_sum (h : Hierarchy) :
    h.edges = (h.entries.map fun p => p.2.parents.length).sum := by
  rw [edges, Dict.values, List.map_map, ← List.sum_eq_foldr]
  rfl

/-- A class that leaves the hierarchy takes the edges to its parents with it. -/
theorem edges_erase (h : Hierarchy) (a : String) :
    edges (Dict.erase h a) + (h.parents a).length ≤ h.edges := by
  have key (l : List (String × ClassHeader)) :
      ((l.filter fun p => p.1 ≠ a).map fun p => p.2.parents.length).sum +
        ((l.find? fun p => p.1 = a).map fun p => p.2.parents.length).getD 0 ≤
      (l.map fun p => p.2.parents.length).sum := by
    induction l with
    | nil => exact le_rfl
    | cons p l ih =>
      simp only [List.filter_cons, List.find?_cons, List.map_cons, List.sum_cons, ne_eq] at ih ⊢
      by_cases same : p.1 = a
      · simp only [same, not_true_eq_false, decide_false, decide_true, Bool.false_eq_true, if_false,
          Option.map_some, Option.getD_some]
        omega
      · simp only [same, not_false_eq_true, decide_false, decide_true, if_true, List.map_cons,
          List.sum_cons]
        omega
  have length : (h.parents a).length =
      ((h.entries.find? fun p => p.1 = a).map fun p => p.2.parents.length).getD 0 := by
    rw [parents, Dict.get?]
    cases h.entries.find? fun p => p.1 = a <;> rfl
  rw [edges_eq_sum, edges_eq_sum, length]
  exact key h.entries

/-- A path either ends in the class that is asked next, or it goes on from what is queued then. -/
theorem exists_queued {name x c : String} {queue : List String} (queued : x ∈ name :: queue)
    (path : h.Inherits x c) :
    c = name ∨ ∃ y ∈ queue ++ h.parents name, Inherits (Dict.erase h name) y c := by
  induction path with
  | refl =>
    rcases List.mem_cons.mp queued with rfl | later
    · exact .inl rfl
    · exact .inr ⟨x, List.mem_append_left _ later, .refl⟩
  | @tail b c _ step ih =>
    -- The last visit of `name` on the path decides; behind it nothing that was erased is used.
    by_cases visited : b = name
    · exact .inr ⟨c, List.mem_append_right _ (visited ▸ step), .refl⟩
    · obtain ⟨y, later, rest⟩ := ih.resolve_left visited
      refine .inr ⟨y, later, rest.tail ?_⟩
      rwa [parents_erase, if_neg visited]

theorem exists_of_searchWithin {n : ℕ} {queue : List String} {a : α}
    (found : searchWithin find n h queue = some a) :
    ∃ x ∈ queue, ∃ c, h.Inherits x c ∧ find c = some a := by
  induction n generalizing h queue with
  | zero => exact nomatch found
  | succ n ih =>
    rcases queue with _ | ⟨name, queue⟩
    · exact nomatch found
    rw [searchWithin] at found
    cases asked : find name with
    | some b =>
      rw [asked] at found
      exact ⟨name, List.mem_cons_self, name, .refl, asked.trans found⟩
    | none =>
      rw [asked] at found
      obtain ⟨x, queued, c, path, answer⟩ := ih found
      have above := inherits_of_erase path
      rcases List.mem_append.mp queued with later | parent
      · exact ⟨x, List.mem_cons_of_mem _ later, c, above, answer⟩
      · exact ⟨name, List.mem_cons_self, c, .head parent above, answer⟩

/-- The bound covers what is queued and every edge that can still bring a class into the queue. -/
theorem eq_none_of_searchWithin {n : ℕ} {queue : List String}
    (bound : queue.length + h.edges ≤ n) (missed : searchWithin find n h queue = none)
    {x c : String} (queued : x ∈ queue) (path : h.Inherits x c) : find c = none := by
  induction n generalizing h queue x with
  | zero =>
    have empty : queue.length = 0 := by omega
    rw [List.length_eq_zero_iff.mp empty] at queued
    exact nomatch queued
  | succ n ih =>
    rcases queue with _ | ⟨name, queue⟩
    · exact nomatch queued
    rw [searchWithin] at missed
    cases asked : find name with
    | some b =>
      rw [asked] at missed
      exact nomatch missed
    | none =>
      rw [asked] at missed
      rcases exists_queued queued path with rfl | ⟨y, later, rest⟩
      · exact asked
      · have fewer := edges_erase h name
        refine ih ?_ missed later rest
        rw [List.length_cons] at bound
        rw [List.length_append]
        omega

theorem exists_of_search {owner : String} {a : α} (found : h.search owner find = some a) :
    ∃ c, h.Inherits owner c ∧ find c = some a := by
  obtain ⟨x, queued, above⟩ := exists_of_searchWithin found
  rwa [List.mem_singleton.mp queued] at above

theorem search_eq_none_iff {owner : String} :
    h.search owner find = none ↔ ∀ c, h.Inherits owner c → find c = none := by
  constructor
  · intro missed c path
    refine eq_none_of_searchWithin ?_ missed (List.mem_singleton_self owner) path
    rw [List.length_singleton, Nat.add_comm]
  · intro all
    by_contra found
    obtain ⟨a, found⟩ := Option.ne_none_iff_exists'.mp found
    obtain ⟨c, path, answer⟩ := exists_of_search found
    exact nomatch answer.symm.trans (all c path)

/-- The class itself is asked first. -/
theorem search_of_self {owner : String} {a : α} (found : find owner = some a) :
    h.search owner find = some a := by
  rw [search, searchWithin, found]

end Hierarchy

end ModRemap
