import Mathlib
import ModRemap.Proofs.SupertypeSearch

/-! The search through supertypes comes to an end and is breadth first: of the classes that `find`
says anything of, it takes the nearest, and of those that are as near the first. -/

namespace ModRemap

namespace Hierarchy

variable {α : Type} {h : Hierarchy} {find : String → Option α}

/-- The classes `k` steps above those of `start`, one for each way to them. A superclass comes before
the interfaces, and what is above one class before what is above the next. -/
def layer (h : Hierarchy) (start : List String) : ℕ → List String
  | 0 => start
  | k + 1 => (h.layer start k).flatMap h.parents

/-- The shortest way from `owner` up to `c` has `d` steps. -/
def IsDistance (h : Hierarchy) (owner c : String) (d : ℕ) : Prop :=
  IsLeast {k | c ∈ h.layer [owner] k} d

/-- Of the classes that `find` says anything of, no other is nearer to `owner` than `c`, and none
that is as near comes before it. -/
structure IsNearest (h : Hierarchy) (owner : String) (find : String → Option α) (c : String)
    (d : ℕ) : Prop where
  answers : find c ≠ none
  distance : h.IsDistance owner c d
  closest : ∀ b e, find b ≠ none → h.IsDistance owner b e → d ≤ e
  first : ∀ b, find b ≠ none → h.IsDistance owner b d →
    (h.layer [owner] d).idxOf c ≤ (h.layer [owner] d).idxOf b

/-- The search that keeps the classes it has seen, and the hierarchy as it is. It yields nothing when
the queue is not done after `n` classes. -/
def visit (h : Hierarchy) (find : String → Option α) :
    ℕ → List String → List String → Option (Option α)
  | _, _, [] => some none
  | 0, _, _ :: _ => none
  | n + 1, seen, name :: queue =>
    if name ∈ seen then h.visit find n seen queue
    else match find name with
      | some a => some (some a)
      | none => h.visit find n (name :: seen) (queue ++ h.parents name)

/-! ### The end of the search -/

/-- What has been seen is what has left the hierarchy; `find` had nothing to say of it. -/
theorem visit_eq_searchWithin {left : Hierarchy} {seen : List String}
    (gone : ∀ b, left.parents b = if b ∈ seen then [] else h.parents b)
    (silent : ∀ b ∈ seen, find b = none) {n : ℕ} {queue : List String}
    (bound : queue.length + left.edges ≤ n) :
    h.visit find n seen queue = some (searchWithin find n left queue) := by
  induction n generalizing left seen queue with
  | zero =>
    have empty : queue.length = 0 := by omega
    rw [List.length_eq_zero_iff.mp empty, visit, searchWithin]
  | succ n ih =>
    rcases queue with _ | ⟨name, queue⟩
    · rfl
    have fewer := edges_erase left name
    rw [List.length_cons] at bound
    rw [visit, searchWithin]
    by_cases again : name ∈ seen
    · have none_left : left.parents name = [] := by rw [gone, if_pos again]
      have gone' (b : String) :
          parents (Dict.erase left name) b = if b ∈ seen then [] else h.parents b := by
        rw [parents_erase, ← gone]
        split_ifs with same
        · rw [same, none_left]
        · rfl
      rw [if_pos again, silent name again, none_left, List.append_nil]
      exact ih gone' silent (by omega)
    · have same : left.parents name = h.parents name := by rw [gone, if_neg again]
      rw [if_neg again]
      cases asked : find name with
      | some a => rfl
      | none =>
        have gone' (b : String) : parents (Dict.erase left name) b =
            if b ∈ name :: seen then [] else h.parents b := by
          simp only [parents_erase, gone, List.mem_cons]
          split_ifs <;> simp_all only [true_or, or_true, not_true_eq_false, or_self]
        have silent' : ∀ b ∈ name :: seen, find b = none :=
          List.forall_mem_cons.mpr ⟨asked, silent⟩
        rw [same]
        refine ih gone' silent' ?_
        rw [List.length_append, ← same]
        omega

/-- No class joins the queue without an edge to it, and no edge is followed twice. -/
theorem visit_eq_search (h : Hierarchy) (find : String → Option α) (owner : String) :
    h.visit find (h.edges + 1) [] [owner] = some (h.search owner find) := by
  refine visit_eq_searchWithin (fun b => ?_) (List.forall_mem_nil _) ?_
  · rw [if_neg List.not_mem_nil]
  · rw [List.length_singleton, Nat.add_comm]

/-! ### Layers -/

theorem layer_append (h : Hierarchy) (as bs : List String) (k : ℕ) :
    h.layer (as ++ bs) k = h.layer as k ++ h.layer bs k := by
  induction k with
  | zero => rfl
  | succ k ih => rw [layer, layer, layer, ih, List.flatMap_append]

theorem layer_cons (h : Hierarchy) (name : String) (queue : List String) (k : ℕ) :
    h.layer (name :: queue) (k + 1) = h.layer (h.parents name) k ++ h.layer queue (k + 1) := by
  have one : h.layer [name] (k + 1) = h.layer (h.parents name) k := by
    induction k with
    | zero => rw [layer, layer, layer, List.flatMap_singleton]
    | succ k ih => rw [layer, ih, layer]
  rw [← one, ← layer_append, List.singleton_append]

theorem inherits_iff_layer {owner c : String} :
    h.Inherits owner c ↔ ∃ k, c ∈ h.layer [owner] k := by
  constructor
  · intro path
    induction path with
    | refl => exact ⟨0, List.mem_singleton_self owner⟩
    | tail _ step ih =>
      obtain ⟨k, reached⟩ := ih
      exact ⟨k + 1, List.mem_flatMap.mpr ⟨_, reached, step⟩⟩
  · rintro ⟨k, reached⟩
    induction k generalizing c with
    | zero =>
      rw [layer, List.mem_singleton] at reached
      exact reached ▸ .refl
    | succ k ih =>
      obtain ⟨b, below, step⟩ := List.mem_flatMap.mp reached
      exact (ih below).tail step

/-- The first answer, layer by layer. -/
def Answers (h : Hierarchy) (find : String → Option α) (start : List String) (a : α) : Prop :=
  ∃ d, (∀ k < d, (h.layer start k).findSome? find = none) ∧ (h.layer start d).findSome? find = some a

/-- A class without an answer hands over to its parents, which may come after all else that waits. -/
theorem Answers.cons {name : String} {queue : List String} {a : α} (asked : find name = none)
    (answers : h.Answers find (queue ++ h.parents name) a) : h.Answers find (name :: queue) a := by
  obtain ⟨d, before, here⟩ := answers
  have both (k : ℕ) (less : k < d) : (h.layer queue k).findSome? find = none ∧
      (h.layer (h.parents name) k).findSome? find = none := by
    have none := before k less
    rwa [layer_append, List.findSome?_append, Option.or_eq_none_iff] at none
  have shift (k : ℕ) (less : k < d + 1) (there : (h.layer queue k).findSome? find = none) :
      (h.layer (name :: queue) k).findSome? find = none := by
    cases k with
    | zero => rwa [layer, List.findSome?_cons, asked]
    | succ k =>
      rw [layer_cons, List.findSome?_append, (both k (by omega)).2, there]
      rfl
  rw [layer_append, List.findSome?_append] at here
  cases waiting : (h.layer queue d).findSome? find with
  | some b =>
    -- The answer stands in the layer of what was waiting.
    rw [waiting, Option.some_or] at here
    refine ⟨d, fun k less => shift k (by omega) (both k less).1, ?_⟩
    cases d with
    | zero => rwa [layer, List.findSome?_cons, asked, ← here]
    | succ d =>
      rw [layer_cons, List.findSome?_append, (both d (by omega)).2, waiting, Option.none_or, here]
  | none =>
    -- The answer is above the class itself, one step farther from it than from its parents.
    rw [waiting, Option.none_or] at here
    refine ⟨d + 1, fun k less => ?_, ?_⟩
    · rcases Nat.lt_succ_iff_lt_or_eq.mp less with less' | rfl
      · exact shift k less (both k less').1
      · exact shift k less waiting
    · rw [layer_cons, List.findSome?_append, here, Option.some_or]

/-! ### What may leave the hierarchy -/

/-- The second list is the first without some of the classes of which `P` holds. -/
inductive Trimmed (P : String → Prop) : List String → List String → Prop where
  | nil : Trimmed P [] []
  | keep {c : String} {l l' : List String} : Trimmed P l l' → Trimmed P (c :: l) (c :: l')
  | drop {c : String} {l l' : List String} : P c → Trimmed P l l' → Trimmed P (c :: l) l'

namespace Trimmed

variable {P Q : String → Prop} {l l' m m' : List String}

theorem refl (P : String → Prop) (l : List String) : Trimmed P l l := by
  induction l with
  | nil => exact .nil
  | cons _ _ ih => exact .keep ih

theorem of_forall (all : ∀ c ∈ l, P c) : Trimmed P l [] := by
  induction l with
  | nil => exact .nil
  | cons c l ih =>
    obtain ⟨first, others⟩ := List.forall_mem_cons.mp all
    exact .drop first (ih others)

theorem append (left : Trimmed P l l') (right : Trimmed P m m') :
    Trimmed P (l ++ m) (l' ++ m') := by
  induction left with
  | nil => exact right
  | keep _ ih => exact .keep ih
  | drop gone _ ih => exact .drop gone ih

theorem findSome?_eq (silent : ∀ c, P c → find c = none) (trimmed : Trimmed P l l') :
    l.findSome? find = l'.findSome? find := by
  induction trimmed with
  | nil => rfl
  | keep _ ih => rw [List.findSome?_cons, List.findSome?_cons, ih]
  | drop gone _ ih => rw [List.findSome?_cons, silent _ gone, ih]

/-- With `name` its parents go, and with a class that is gone all that it has above. -/
theorem flatMap {name : String} (trimmed : Trimmed P l l')
    (above : ∀ c, P c → ∀ b ∈ h.parents c, Q b) (parents : ∀ b ∈ h.parents name, Q b) :
    Trimmed Q (l.flatMap h.parents) (l'.flatMap (Hierarchy.parents (Dict.erase h name))) := by
  induction trimmed with
  | nil => exact .nil
  | @keep c _ _ _ ih =>
    rw [List.flatMap_cons, List.flatMap_cons]
    refine append ?_ ih
    rw [parents_erase]
    split_ifs with same
    · exact of_forall (same ▸ parents)
    · exact refl Q _
  | @drop c _ _ gone _ ih =>
    rw [List.flatMap_cons]
    exact append (of_forall (above c gone)) ih

end Trimmed

/-- When all its parents are waiting, a class can leave the hierarchy: what it would add to a layer
stands in one below. -/
theorem trimmed_layer {name : String} {start : List String}
    (waiting : ∀ b ∈ h.parents name, b ∈ start) (k : ℕ) :
    Trimmed (fun c => ∃ j < k, c ∈ h.layer start j) (h.layer start k)
      (layer (Dict.erase h name) start k) := by
  induction k with
  | zero => exact Trimmed.refl _ _
  | succ k ih =>
    refine ih.flatMap (fun c ⟨j, less, lower⟩ b above => ?_) (fun b above => ?_)
    · exact ⟨j + 1, by omega, List.mem_flatMap.mpr ⟨c, lower, above⟩⟩
    · exact ⟨0, by omega, waiting b above⟩

theorem Answers.of_erase {name : String} {start : List String} {a : α}
    (waiting : ∀ b ∈ h.parents name, b ∈ start)
    (answers : Answers (Dict.erase h name) find start a) : h.Answers find start a := by
  obtain ⟨d, before, here⟩ := answers
  have same (k : ℕ) (silent : ∀ j < k, (h.layer start j).findSome? find = none) :
      (h.layer start k).findSome? find = (layer (Dict.erase h name) start k).findSome? find := by
    refine Trimmed.findSome?_eq (fun c ⟨j, less, lower⟩ => ?_) (trimmed_layer waiting k)
    exact List.findSome?_eq_none_iff.mp (silent j less) c lower
  have silent (k : ℕ) : k < d → (h.layer start k).findSome? find = none := by
    induction k using Nat.strong_induction_on with
    | _ k ih =>
      intro less
      rw [same k fun j lower => ih j lower (lower.trans less)]
      exact before k less
  exact ⟨d, silent, (same d silent).trans here⟩

/-! ### The nearest class -/

theorem answers_of_searchWithin {n : ℕ} {queue : List String} {a : α}
    (found : searchWithin find n h queue = some a) : h.Answers find queue a := by
  induction n generalizing h queue with
  | zero => exact nomatch found
  | succ n ih =>
    rcases queue with _ | ⟨name, queue⟩
    · exact nomatch found
    rw [searchWithin] at found
    cases asked : find name with
    | some b =>
      rw [asked] at found
      refine ⟨0, fun k less => absurd less k.not_lt_zero, ?_⟩
      rw [layer, List.findSome?_cons, asked]
      exact found
    | none =>
      rw [asked] at found
      have later := ih found
      exact (later.of_erase fun b parent => List.mem_append_right _ parent).cons asked

theorem Answers.exists_nearest {owner : String} {a : α} (answers : h.Answers find [owner] a) :
    ∃ c d, h.IsNearest owner find c d ∧ find c = some a := by
  obtain ⟨d, before, here⟩ := answers
  obtain ⟨front, c, back, split, answer, silent⟩ := List.findSome?_eq_some_iff.mp here
  have known : find c ≠ none := fun nothing => nomatch nothing.symm.trans answer
  have least (b : String) (e : ℕ) (known' : find b ≠ none) (reached : b ∈ h.layer [owner] e) :
      d ≤ e := by
    by_contra less
    exact known' (List.findSome?_eq_none_iff.mp (before e (not_le.mp less)) b reached)
  have listed : c ∈ h.layer [owner] d := split ▸ List.mem_append_right _ List.mem_cons_self
  refine ⟨c, d, ⟨known, ⟨listed, fun e reached => least c e known reached⟩,
    fun b e known' distance => least b e known' distance.1, fun b known' _ => ?_⟩, answer⟩
  -- Nothing in front of `c` in its layer has an answer.
  have behind (x : String) (known' : find x ≠ none) : x ∉ front := fun inside =>
    known' (silent x inside)
  rw [split, List.idxOf_append_of_notMem (behind c known),
    List.idxOf_append_of_notMem (behind b known'), List.idxOf_cons_self]
  omega

theorem IsNearest.unique {owner c c' : String} {d d' : ℕ} (one : h.IsNearest owner find c d)
    (other : h.IsNearest owner find c' d') : c = c' := by
  have same : d = d' := le_antisymm (one.closest c' d' other.answers other.distance)
    (other.closest c d one.answers one.distance)
  subst same
  have position := le_antisymm (one.first c' other.answers other.distance)
    (other.first c one.answers one.distance)
  exact (List.idxOf_inj one.distance.1).mp position

theorem search_breadthFirst (h : Hierarchy) (owner : String) (find : String → Option α) :
    h.visit find (h.edges + 1) [] [owner] = some (h.search owner find) ∧
      (h.search owner find = none ↔ ∀ c, h.Inherits owner c → find c = none) ∧
      ∀ a, h.search owner find = some a ↔
        ∃ c d, h.Inherits owner c ∧ h.IsNearest owner find c d ∧ find c = some a := by
  refine ⟨visit_eq_search h find owner, search_eq_none_iff, fun a => ⟨fun found => ?_, ?_⟩⟩
  · obtain ⟨c, d, nearest, answer⟩ := (answers_of_searchWithin found).exists_nearest
    exact ⟨c, d, inherits_iff_layer.mpr ⟨d, nearest.distance.1⟩, nearest, answer⟩
  · rintro ⟨c, d, above, nearest, answer⟩
    cases found : h.search owner find with
    | none => exact absurd (search_eq_none_iff.mp found c above) nearest.answers
    | some a' =>
      obtain ⟨c', d', nearest', answer'⟩ := (answers_of_searchWithin found).exists_nearest
      rw [nearest'.unique nearest] at answer'
      exact answer'.symm.trans answer

end Hierarchy

end ModRemap
