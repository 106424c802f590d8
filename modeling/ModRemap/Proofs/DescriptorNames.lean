import Mathlib
import ModRemap.Proofs.SameNames

/-! The class names that a descriptor mentions. Nothing else decides what renaming makes of it, and
to rename twice is to rename each of them twice. -/

namespace ModRemap.Descriptor

/-- The names that are closed, from a state of `renameFrom` on. -/
def namesFrom : Option (List Char) → List Char → List String
  | none, [] => []
  | none, c :: s => namesFrom (if c = 'L' then some [] else none) s
  | some _, [] => []
  | some read, c :: s =>
    if c = ';' then String.ofList read.reverse :: namesFrom none s
    else namesFrom (some (c :: read)) s

/-- The class names in a descriptor: what stands between `L` and `;`. -/
def names (descriptor : String) : List String := namesFrom none descriptor.toList

/-- The name that takes the place of another. -/
def renamed (f : String → Option String) (name : String) : String := (f name).getD name

/-- The look-up in `f` and then in `g`. -/
def followed (f g : String → Option String) (name : String) : Option String :=
  some (renamed g (renamed f name))

/-- No name that is looked up ends the name it stands in. -/
def Closed (f : String → Option String) : Prop := ∀ name new, f name = some new → ';' ∉ new.toList

variable {f g : String → Option String}

theorem renameFrom_congr {inside : Option (List Char)} {s : List Char}
    (same : ∀ name ∈ namesFrom inside s, renamed f name = renamed g name) :
    renameFrom f inside s = renameFrom g inside s := by
  induction s generalizing inside with
  | nil => cases inside <;> rfl
  | cons c s ih =>
    cases inside with
    | none =>
      rw [namesFrom] at same
      rw [renameFrom, renameFrom, ih same]
    | some read =>
      rw [namesFrom] at same
      rw [renameFrom, renameFrom]
      split_ifs at same ⊢ with close
      · obtain ⟨first, others⟩ := List.forall_mem_cons.mp same
        have name : substitute f read.reverse = substitute g read.reverse :=
          congrArg String.toList first
        rw [name, ih others]
      · exact ih same

theorem rename_congr {descriptor : String}
    (same : ∀ name ∈ names descriptor, renamed f name = renamed g name) :
    rename f descriptor = rename g descriptor :=
  congrArg String.ofList (renameFrom_congr same)

theorem rename_eq_self {descriptor : String}
    (fixed : ∀ name ∈ names descriptor, renamed f name = name) :
    rename f descriptor = descriptor := by
  have nothing : Preserves fun _ => none := fun _ _ found => nomatch found
  exact (rename_congr fixed).trans (rename_eq nothing descriptor)

theorem renameFrom_of_open {read s : List Char} (unclosed : ';' ∉ s) :
    renameFrom f (some read) s = read.reverse ++ s := by
  induction s generalizing read with
  | nil => exact (List.append_nil _).symm
  | cons c s ih =>
    have other : c ≠ ';' := (List.ne_of_not_mem_cons unclosed).symm
    rw [renameFrom, if_neg other, ih (List.not_mem_of_not_mem_cons unclosed), List.reverse_cons,
      List.append_assoc, List.singleton_append]

theorem renameFrom_closed {name : List Char} (plain : ';' ∉ name) (read s : List Char) :
    renameFrom f (some read) (name ++ ';' :: s) =
      substitute f (read.reverse ++ name) ++ ';' :: renameFrom f none s := by
  induction name generalizing read with
  | nil => rw [List.nil_append, renameFrom, if_pos rfl, List.append_nil]
  | cons c name ih =>
    have other : c ≠ ';' := (List.ne_of_not_mem_cons plain).symm
    rw [List.cons_append, renameFrom, if_neg other, ih (List.not_mem_of_not_mem_cons plain),
      List.reverse_cons, List.append_assoc, List.singleton_append]

theorem substitute_plain (closed : Closed f) {name : List Char} (plain : ';' ∉ name) :
    ';' ∉ substitute f name := by
  unfold substitute
  cases found : f (String.ofList name) with
  | none => rwa [Option.getD_none, String.toList_ofList]
  | some new => exact closed _ new found

/-- What has been read of a name is written when the name ends, so that the second renaming starts
the name anew. -/
theorem renameFrom_renameFrom (closed : Closed f) (inside : Option (List Char))
    (plain : ∀ read ∈ inside, ';' ∉ read) (s : List Char) :
    renameFrom g (inside.map fun _ => []) (renameFrom f inside s) =
      renameFrom (followed f g) inside s := by
  induction s generalizing inside with
  | nil =>
    cases inside with
    | none => rfl
    | some read =>
      have front : ';' ∉ read.reverse := List.mem_reverse.not.mpr (plain read rfl)
      exact renameFrom_of_open front
  | cons c s ih =>
    cases inside with
    | none =>
      have here := ih (if c = 'L' then some [] else none) fun read started => by
        split_ifs at started
        · obtain rfl := Option.some.inj started
          exact List.not_mem_nil
        · exact absurd started (Option.not_mem_none read)
      rw [Option.map_none, renameFrom, renameFrom, renameFrom, ← here]
      split_ifs <;> rfl
    | some read =>
      have front : ';' ∉ read := plain read rfl
      rw [renameFrom, renameFrom]
      split_ifs with close
      · have name := substitute_plain closed (List.mem_reverse.not.mpr front)
        have twice : substitute g (substitute f read.reverse) =
            substitute (followed f g) read.reverse := by
          unfold substitute
          rw [String.ofList_toList]
          rfl
        rw [Option.map_some, renameFrom_closed name, List.reverse_nil, List.nil_append, twice]
        exact congrArg (_ ++ ';' :: ·) (ih none fun read started =>
          absurd started (Option.not_mem_none read))
      · refine ih (some (c :: read)) fun _ same => ?_
        obtain rfl := Option.some.inj same
        exact List.not_mem_cons_of_ne_of_not_mem (Ne.symm close) front

theorem rename_rename (closed : Closed f) (descriptor : String) :
    rename g (rename f descriptor) = rename (followed f g) descriptor := by
  unfold rename
  rw [String.toList_ofList]
  exact congrArg String.ofList (renameFrom_renameFrom closed none
    (fun read started => absurd started (Option.not_mem_none read)) _)

end ModRemap.Descriptor
