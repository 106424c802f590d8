import Mathlib
import ModRemap.Proofs.FileChanges
import ModRemap.Proofs.Paths

/-! What there is after directories have been made along a path: the directories there were, and one at
every place on the way. Whether they can be made depends on what is at those places. -/

namespace ModRemap

namespace Path

/-- The place that a step leads to. -/
def next (place : Place) (step : String) : Place :=
  if step = "." then place else if step = ".." then place.dropLast else place ++ [step]

/-- Every place on the way, with both its ends. -/
def trailFrom (place : Place) : List String → Set Place
  | [] => {place}
  | step :: steps => insert place (trailFrom (next place step) steps)

def trail (path : String) : Set Place := trailFrom [] (steps path)

variable {p : Place} {front steps : List String}

theorem start_mem_trailFrom (p : Place) (steps : List String) : p ∈ trailFrom p steps := by
  cases steps with
  | nil => exact Set.mem_singleton p
  | cons step steps => exact Set.mem_insert _ _

theorem end_mem_trailFrom (p : Place) (steps : List String) :
    steps.foldl next p ∈ trailFrom p steps := by
  induction steps generalizing p with
  | nil => exact Set.mem_singleton p
  | cons step steps ih => exact Set.mem_insert_of_mem _ (ih (next p step))

theorem next_of_name {step : String} (dot : step ≠ ".") (dots : step ≠ "..") (place : Place) :
    next place step = place ++ [step] := by
  rw [next, if_neg dot, if_neg dots]

/-- A path that ends in a name leads to a place of that name. -/
theorem append_mem_trail {path step : String} {place : Place}
    (last : (Path.steps path).getLast? = some step) (dot : step ≠ ".") (dots : step ≠ "..")
    (above : place = (Path.steps path).dropLast.foldl next []) : place ++ [step] ∈ trail path := by
  have arrives : (Path.steps path).foldl next [] = place ++ [step] :=
    calc (Path.steps path).foldl next []
        = ((Path.steps path).dropLast ++ [step]).foldl next [] := by
          rw [List.dropLast_append_getLast? step last]
      _ = next place step := by rw [List.foldl_concat, ← above]
      _ = place ++ [step] := next_of_name dot dots place
  exact arrives ▸ end_mem_trailFrom [] (Path.steps path)

theorem trailFrom_append (p : Place) (front steps : List String) :
    trailFrom p (front ++ steps) = trailFrom p front ∪ trailFrom (front.foldl next p) steps := by
  induction front generalizing p with
  | nil =>
    rw [List.nil_append, List.foldl_nil, trailFrom, Set.singleton_union,
      Set.insert_eq_of_mem (start_mem_trailFrom p steps)]
  | cons step front ih => rw [List.cons_append, trailFrom, trailFrom, ih, Set.insert_union]; rfl

theorem trailFrom_subset (prefixed : front <+: steps) : trailFrom p front ⊆ trailFrom p steps := by
  obtain ⟨rest, rfl⟩ := prefixed
  rw [trailFrom_append]
  exact Set.subset_union_left

theorem trail_ancestor {path above : String} (member : above ∈ ancestors path) :
    trail above ⊆ trail path :=
  trailFrom_subset (steps_ancestor member)

end Path

namespace Files

variable {fs fs' : Files} {p q : Place} {path : String}

def directories (fs : Files) : Set Place := {p | fs.node? p = some .directory}

theorem mem_directories : p ∈ fs.directories ↔ fs.node? p = some .directory := .rfl

theorem root_mem_directories (fs : Files) : [] ∈ fs.directories := rfl

theorem not_mem_directories_of_none (free : fs.node? p = none) : p ∉ fs.directories := by
  rw [mem_directories, free]
  exact nofun

theorem not_mem_directories_of_file {c : Content} (there : fs.node? p = some (.file c)) :
    p ∉ fs.directories := by
  rw [mem_directories, there]
  exact nofun

theorem keeps_of_subset (h : fs.directories ⊆ fs'.directories) : Keeps (fun _ => True) fs fs' :=
  ⟨fun _ there => h there, fun _ _ outside => absurd trivial outside⟩

theorem directories_put {c : Content} (free : p ∉ fs.directories) :
    (fs.put p (.file c)).directories = fs.directories := by
  ext q
  rw [mem_directories, node?_put]
  split_ifs with root same
  · rw [root]
    exact ⟨fun _ => fs.root_mem_directories, fun _ => rfl⟩
  · rw [same]
    exact ⟨nofun, fun there => absurd there free⟩
  · rfl

theorem directories_put_directory (fs : Files) (p : Place) :
    (fs.put p .directory).directories = insert p fs.directories := by
  ext q
  rw [mem_directories, node?_put, Set.mem_insert_iff]
  split_ifs with root same
  · rw [root]
    exact ⟨fun _ => .inr fs.root_mem_directories, fun _ => rfl⟩
  · exact ⟨fun _ => .inl same, fun _ => rfl⟩
  · exact ⟨.inr, fun h => h.resolve_left same⟩

/-- Whether a step can be taken from a directory. -/
def Allowed (p : Place) (step : String) : Prop :=
  step = "." ∨ (step = ".." ∧ p ≠ []) ∨ (step ≠ "." ∧ step ≠ ".." ∧ isNameable step = true)

theorem follow_cons {step : String} {steps : List String} : fs.follow p (step :: steps) = .ok q ↔
    p ∈ fs.directories ∧ Allowed p step ∧ fs.follow (Path.next p step) steps = .ok q := by
  rw [Files.follow, mem_directories, Allowed, Path.next]
  cases fs.node? p with
  | none => simp
  | some n =>
    cases n with
    | file c => simp
    | directory =>
      dsimp only
      split_ifs with same up root named <;> simp_all

theorem follow_append {front steps : List String} : fs.follow p (front ++ steps) = .ok q ↔
    ∃ r, fs.follow p front = .ok r ∧ fs.follow r steps = .ok q := by
  induction front generalizing p with
  | nil =>
    constructor
    · exact fun h => ⟨p, rfl, h⟩
    · rintro ⟨r, here, h⟩
      obtain rfl := Except.ok.inj here
      exact h
  | cons step front ih =>
    rw [List.cons_append]
    simp only [follow_cons, ih]
    constructor
    · rintro ⟨here, allowed, r, first, rest⟩
      exact ⟨r, ⟨here, allowed, first⟩, rest⟩
    · rintro ⟨r, ⟨here, allowed, first⟩, rest⟩
      exact ⟨here, allowed, r, first, rest⟩

/-- Where steps lead, and that everything on the way is a directory if the end is one. -/
theorem follow_eq_ok {steps : List String} (h : fs.follow p steps = .ok q) :
    q = steps.foldl Path.next p ∧ (q ∈ fs.directories → Path.trailFrom p steps ⊆ fs.directories) := by
  induction steps generalizing p with
  | nil =>
    obtain rfl := Except.ok.inj h
    exact ⟨rfl, fun there => Set.singleton_subset_iff.mpr there⟩
  | cons step steps ih =>
    obtain ⟨here, _, rest⟩ := follow_cons.mp h
    obtain ⟨arrives, all⟩ := ih rest
    exact ⟨arrives, fun there => Set.insert_subset here (all there)⟩

theorem isDirectory_eq_true : fs.isDirectory path = true ↔
    ∃ p, fs.locate path = .ok p ∧ fs.node? p = some .directory := by
  rw [← open?_eq_ok, isDirectory]
  split
  · rename_i opened
    exact ⟨fun _ => opened, fun _ => rfl⟩
  · rename_i other
    exact ⟨nofun, fun opened => absurd opened other⟩

theorem isDirectory_iff : fs.isDirectory path = true ↔ isPath path = true ∧
    Path.isAbsolute path = false ∧ ∃ q ∈ fs.directories, fs.follow [] (Path.steps path) = .ok q := by
  rw [isDirectory_eq_true]
  constructor
  · rintro ⟨q, found, there⟩
    obtain ⟨⟨fits, relative, followed⟩, _⟩ := locate_eq_ok_iff.mp found
    exact ⟨fits, relative, q, there, followed⟩
  · rintro ⟨fits, relative, q, there, followed⟩
    refine ⟨q, locate_eq_ok_iff.mpr ⟨⟨fits, relative, followed⟩, fun c file => ?_⟩, there⟩
    exact nomatch there.symm.trans file

theorem trail_subset_of_isDirectory (h : fs.isDirectory path = true) :
    Path.trail path ⊆ fs.directories := by
  obtain ⟨_, _, q, there, followed⟩ := isDirectory_iff.mp h
  exact (follow_eq_ok followed).2 there

theorem isDirectory_mono (more : fs.directories ⊆ fs'.directories) (h : fs.isDirectory path = true) :
    fs'.isDirectory path = true := by
  obtain ⟨fits, relative, q, there, followed⟩ := isDirectory_iff.mp h
  exact isDirectory_iff.mpr ⟨fits, relative, q, more there, (keeps_of_subset more).follow followed⟩

/-! ### Making directories -/

/-- At these places there is the same, but for what the files hold. -/
def Alike (V : Set Place) (fs fs' : Files) : Prop :=
  ∀ p ∈ V, (p ∈ fs.directories ↔ p ∈ fs'.directories) ∧ (fs.node? p = none ↔ fs'.node? p = none)

section

variable {V : Set Place}

/-- Where there are no files, only directories count. -/
theorem alike_of_clear (same : ∀ p ∈ V, p ∈ fs.directories ↔ p ∈ fs'.directories)
    (clear : ∀ p ∈ V, ∀ c, fs.node? p ≠ some (.file c))
    (clear' : ∀ p ∈ V, ∀ c, fs'.node? p ≠ some (.file c)) : Alike V fs fs' := by
  have absent {fs : Files} {p : Place} (clear : ∀ c, fs.node? p ≠ some (.file c)) :
      fs.node? p = none ↔ p ∉ fs.directories := by
    rw [mem_directories]
    cases there : fs.node? p with
    | none => exact ⟨fun _ => nofun, fun _ => rfl⟩
    | some n =>
      cases n with
      | directory => exact ⟨nofun, fun h => absurd rfl h⟩
      | file c => exact absurd there (clear c)
  intro p inside
  rw [absent (clear p inside), absent (clear' p inside), same p inside]
  exact ⟨.rfl, .rfl⟩

namespace Alike

theorem node? (h : Alike V fs fs') (inside : p ∈ V) :
    (fs.node? p = none ∧ fs'.node? p = none) ∨
      (fs.node? p = some .directory ∧ fs'.node? p = some .directory) ∨
      ∃ c c', fs.node? p = some (.file c) ∧ fs'.node? p = some (.file c') := by
  obtain ⟨directory, absent⟩ := h p inside
  rw [mem_directories, mem_directories] at directory
  cases there : fs.node? p with
  | none => exact .inl ⟨rfl, absent.mp there⟩
  | some n =>
    cases n with
    | directory => exact .inr (.inl ⟨rfl, directory.mp there⟩)
    | file c =>
      rw [there] at directory absent
      cases there' : fs'.node? p with
      | none => exact nomatch absent.mpr there'
      | some n' =>
        cases n' with
        | directory => exact nomatch directory.mpr there'
        | file c' => exact .inr (.inr ⟨c, c', rfl, rfl⟩)

theorem follow (h : Alike V fs fs') {steps : List String} (inside : Path.trailFrom p steps ⊆ V) :
    fs.follow p steps = fs'.follow p steps := by
  induction steps generalizing p with
  | nil => rfl
  | cons step steps ih =>
    obtain ⟨here, rest⟩ := Set.insert_subset_iff.mp inside
    have further := ih rest
    rw [Files.follow, Files.follow]
    obtain ⟨none, none'⟩ | ⟨dir, dir'⟩ | ⟨c, c', file, file'⟩ := h.node? here
    · rw [none, none']
    · rw [dir, dir']
      rw [Path.next] at further
      dsimp only
      split_ifs at further ⊢
      · exact further
      · rfl
      · exact further
      · exact further
      · rfl
    · rw [file, file']

theorem isDirectory (h : Alike V fs fs') (inside : Path.trail path ⊆ V) :
    fs.isDirectory path = fs'.isDirectory path := by
  have same : (∃ q ∈ fs.directories, fs.follow [] (Path.steps path) = .ok q) ↔
      ∃ q ∈ fs'.directories, fs'.follow [] (Path.steps path) = .ok q := by
    rw [h.follow inside]
    refine exists_congr fun q => and_congr_left fun followed => (h q (inside ?_)).1
    rw [(follow_eq_ok followed).1]
    exact Path.end_mem_trailFrom [] _
  rw [Bool.eq_iff_iff, isDirectory_iff, isDirectory_iff, same]

theorem put_directory (h : Alike V fs fs') (q : Place) :
    Alike V (fs.put q .directory) (fs'.put q .directory) := by
  intro p inside
  rw [directories_put_directory, directories_put_directory, Set.mem_insert_iff, Set.mem_insert_iff,
    (h p inside).1, node?_put, node?_put]
  refine ⟨.rfl, ?_⟩
  split_ifs
  · exact .rfl
  · exact .rfl
  · exact (h p inside).2

/-- A directory is made in both, or in neither for the same reason. -/
theorem makeDirectory (h : Alike V fs fs') (inside : Path.trail path ⊆ V) :
    (∃ e, fs.makeDirectory path = .error e ∧ fs'.makeDirectory path = .error e) ∨
      ∃ q, fs.makeDirectory path = .ok (fs.put q .directory) ∧
        fs'.makeDirectory path = .ok (fs'.put q .directory) := by
  have front : Path.trailFrom [] (Path.steps path).dropLast ⊆ V :=
    (Path.trailFrom_subset (List.dropLast_prefix _)).trans inside
  unfold Files.makeDirectory
  dsimp only
  rw [← h.follow front]
  split_ifs
  · exact .inl ⟨_, rfl, rfl⟩
  cases followed : fs.follow [] (Path.steps path).dropLast with
  | error e => exact .inl ⟨e, rfl, rfl⟩
  | ok place =>
    have ends := (follow_eq_ok followed).1
    have there : place ∈ V := front (ends ▸ Path.end_mem_trailFrom [] _)
    simp only [bind, Except.bind]
    obtain ⟨none, none'⟩ | ⟨dir, dir'⟩ | ⟨c, c', file, file'⟩ := h.node? there
    · rw [none, none']
      exact .inl ⟨_, rfl, rfl⟩
    · rw [dir, dir']
      cases last : (Path.steps path).getLast? with
      | none => exact .inl ⟨_, rfl, rfl⟩
      | some step =>
        dsimp only
        by_cases odd : (step = "." || step = ".." || !isNameable step) = true
        · rw [if_pos odd, if_pos odd]
          exact .inl ⟨_, rfl, rfl⟩
        · rw [if_neg odd, if_neg odd]
          simp only [Bool.or_eq_true, decide_eq_true_eq, not_or] at odd
          have arrives : place ++ [step] ∈ V :=
            inside (Path.append_mem_trail last odd.1.1 odd.1.2 ends)
          have same : (fs.node? (place ++ [step])).isSome = (fs'.node? (place ++ [step])).isSome := by
            obtain ⟨none, none'⟩ | ⟨dir, dir'⟩ | ⟨c, c', file, file'⟩ := h.node? arrives
            · rw [none, none']
            · rw [dir, dir']
            · rw [file, file']
              rfl
          rw [same]
          split_ifs
          · exact .inl ⟨_, rfl, rfl⟩
          · exact .inr ⟨_, rfl, rfl⟩
    · rw [file, file']
      exact .inl ⟨_, by cases (Path.steps path).getLast? <;> rfl,
        by cases (Path.steps path).getLast? <;> rfl⟩

/-- As far as directories have been made, the same have been made in both. -/
theorem ensureDirectory (h : Alike V fs fs') (inside : Path.trail path ⊆ V) :
    Alike V (fs.ensureDirectory path).1 (fs'.ensureDirectory path).1 ∧
      (fs.ensureDirectory path).2 = (fs'.ensureDirectory path).2 := by
  unfold Files.ensureDirectory
  obtain ⟨e, failed, failed'⟩ | ⟨q, made, made'⟩ := h.makeDirectory inside
  · rw [failed, failed', h.isDirectory inside]
    exact ⟨h, rfl⟩
  · rw [made, made']
    exact ⟨h.put_directory q, rfl⟩

theorem ensureAll (h : Alike V fs fs') {above : List String}
    (inside : ∀ a ∈ path :: above, Path.trail a ⊆ V) :
    Alike V (fs.ensureAll path above).1 (fs'.ensureAll path above).1 ∧
      (fs.ensureAll path above).2 = (fs'.ensureAll path above).2 := by
  induction above generalizing path with
  | nil => exact h.ensureDirectory (inside path List.mem_cons_self)
  | cons parent above ih =>
    obtain ⟨here, others⟩ := List.forall_mem_cons.mp inside
    obtain ⟨parents, same⟩ := ih others
    have own := h.ensureDirectory here
    unfold Files.ensureAll
    obtain ⟨e, failed, failed'⟩ | ⟨q, made, made'⟩ := h.makeDirectory here
    · rw [failed, failed']
      cases e with
      | refused => exact own
      | notFound =>
        dsimp only
        rcases first : fs.ensureAll parent above with ⟨fs₁, result⟩
        rcases first' : fs'.ensureAll parent above with ⟨fs₁', result'⟩
        rw [first, first'] at parents same
        obtain rfl : result = result' := same
        cases result with
        | error e => exact ⟨parents, rfl⟩
        | ok => exact parents.ensureDirectory here
    · rw [made, made']
      exact own

theorem makeDirectories (h : Alike (Path.trail path) fs fs') :
    (fs.makeDirectories path).2 = (fs'.makeDirectories path).2 := by
  refine (h.ensureAll ?_).2
  exact List.forall_mem_cons.mpr ⟨subset_rfl, fun a member => Path.trail_ancestor member⟩

end Alike

end

theorem makeDirectory_eq_ok (h : fs.makeDirectory path = .ok fs') :
    fs'.isDirectory path = true ∧ fs'.directories ⊆ fs.directories ∪ Path.trail path := by
  unfold makeDirectory at h
  dsimp only at h
  split_ifs at h with odd
  · exact nomatch h
  rw [Bool.or_eq_true, not_or, Bool.not_eq_true, Bool.not_eq_true, Bool.not_eq_false'] at odd
  obtain ⟨place, followed, h⟩ := except_bind_eq_ok.mp h
  split at h
  · exact nomatch h
  · rename_i step there last
    split_ifs at h with strange taken
    obtain rfl := Except.ok.inj h
    simp only [Bool.or_eq_true, decide_eq_true_eq, Bool.not_eq_true', not_or,
      Bool.not_eq_false] at strange
    obtain ⟨⟨dot, dots⟩, named⟩ := strange
    have steps : Path.steps path = (Path.steps path).dropLast ++ [step] :=
      (List.dropLast_append_getLast? step last).symm
    have ends : place ++ [step] ∈ Path.trail path :=
      Path.append_mem_trail last dot dots (follow_eq_ok followed).1
    have more := directories_put_directory fs (place ++ [step])
    have keeps := keeps_of_subset (more ▸ Set.subset_insert _ fs.directories)
    refine ⟨isDirectory_iff.mpr ⟨odd.1, odd.2, place ++ [step], ?_, ?_⟩, ?_⟩
    · rw [more]
      exact Set.mem_insert _ _
    · rw [steps]
      refine follow_append.mpr ⟨place, keeps.follow followed, follow_cons.mpr ⟨?_, ?_, ?_⟩⟩
      · rw [more]
        exact Set.mem_insert_of_mem _ there
      · exact .inr (.inr ⟨dot, dots, named⟩)
      · rw [Path.next_of_name dot dots]
        rfl
    · rw [more]
      exact Set.insert_subset (.inr ends) Set.subset_union_left
  · exact nomatch h

theorem ensureDirectory_subset (fs : Files) (path : String) :
    (fs.ensureDirectory path).1.directories ⊆ fs.directories ∪ Path.trail path := by
  unfold ensureDirectory
  cases made : fs.makeDirectory path with
  | ok fs' => exact (makeDirectory_eq_ok made).2
  | error e => exact Set.subset_union_left

theorem ensureDirectory_eq_ok (h : fs.ensureDirectory path = (fs', .ok ())) :
    fs'.isDirectory path = true := by
  unfold ensureDirectory at h
  split at h
  · rename_i made
    obtain ⟨rfl, _⟩ := Prod.mk.inj h
    exact (makeDirectory_eq_ok made).1
  · obtain ⟨rfl, done⟩ := Prod.mk.inj h
    split_ifs at done with there
    exact there

theorem ensureAll_spec (fs : Files) {V : Set Place} {above : List String}
    (inside : ∀ a ∈ path :: above, Path.trail a ⊆ V) :
    (fs.ensureAll path above).1.directories ⊆ fs.directories ∪ V ∧
      ((fs.ensureAll path above).2 = .ok () → (fs.ensureAll path above).1.isDirectory path = true) := by
  induction above generalizing path with
  | nil => 
    exact ⟨(ensureDirectory_subset fs path).trans
      (Set.union_subset_union_right _ (inside path List.mem_cons_self)),
      fun done => ensureDirectory_eq_ok (Prod.ext rfl done)⟩
  | cons parent above ih =>
    obtain ⟨here, others⟩ := List.forall_mem_cons.mp inside
    obtain ⟨fewer, _⟩ := ih others
    have own (fs : Files) : (fs.ensureDirectory path).1.directories ⊆ fs.directories ∪ V :=
      (ensureDirectory_subset fs path).trans (Set.union_subset_union_right _ here)
    have done (fs : Files) (h : (fs.ensureDirectory path).2 = .ok ()) :
        (fs.ensureDirectory path).1.isDirectory path = true := ensureDirectory_eq_ok (Prod.ext rfl h)
    unfold ensureAll
    split
    · split
      · rename_i made
        rw [made] at fewer
        exact ⟨fewer, fun done => by cases done⟩
      · rename_i fs₁ made
        rw [made] at fewer
        exact ⟨(own fs₁).trans (Set.union_subset fewer Set.subset_union_right), done fs₁⟩
    · exact ⟨own fs, done fs⟩

/-- A directory that could be made is there, with those on the way to it and no others. -/
theorem makeDirectories_eq_ok (h : fs.makeDirectories path = (fs', .ok ())) :
    fs'.isDirectory path = true ∧ fs'.directories = fs.directories ∪ Path.trail path := by
  have inside : ∀ a ∈ path :: Path.ancestors path, Path.trail a ⊆ Path.trail path :=
    List.forall_mem_cons.mpr ⟨subset_rfl, fun a member => Path.trail_ancestor member⟩
  obtain ⟨fewer, done⟩ := ensureAll_spec fs inside
  have keeps := (Within.makeDirectories fs path).directories
  rw [show fs.ensureAll path (Path.ancestors path) = _ from h] at fewer done
  rw [h] at keeps
  have there := done rfl
  exact ⟨there, fewer.antisymm (Set.union_subset keeps (trail_subset_of_isDirectory there))⟩

/-- A directory that is there is not made again. -/
theorem makeDirectory_of_isDirectory (h : fs.isDirectory path = true) :
    fs.makeDirectory path = .error .refused := by
  obtain ⟨fits, relative, q, there, followed⟩ := isDirectory_iff.mp h
  unfold makeDirectory
  dsimp only
  rw [fits, relative, Bool.not_true, Bool.or_false, if_neg Bool.false_ne_true]
  rcases List.eq_nil_or_concat (Path.steps path) with none | ⟨front, step, steps⟩
  · rw [none]
    rfl
  · rw [List.concat_eq_append] at steps
    rw [steps] at followed ⊢
    obtain ⟨place, first, last⟩ := follow_append.mp followed
    obtain ⟨here, _, arrives⟩ := follow_cons.mp last
    obtain rfl := Except.ok.inj arrives
    rw [List.dropLast_concat, List.getLast?_concat, first]
    simp only [bind, Except.bind]
    rw [mem_directories.mp here]
    dsimp only
    split_ifs with odd taken
    · rfl
    · rfl
    · simp only [Bool.or_eq_true, decide_eq_true_eq, not_or] at odd
      rw [Path.next, if_neg odd.1.1, if_neg odd.1.2] at there
      rw [mem_directories.mp there] at taken
      exact absurd rfl taken

theorem makeDirectories_of_isDirectory (h : fs.isDirectory path = true) :
    fs.makeDirectories path = (fs, .ok ()) := by
  have refused := makeDirectory_of_isDirectory h
  have own : fs.ensureDirectory path = (fs, .ok ()) := by
    rw [ensureDirectory, refused]
    exact Prod.ext rfl (if_pos h)
  unfold makeDirectories ensureAll
  split
  · exact own
  · rw [refused]
    exact own

/-- Where directories could be made once, they can be made as long as no file is in the way, whatever
other files have come and gone. -/
theorem makeDirectories_again {fs₁ : Files} (made : fs.makeDirectories path = (fs', .ok ()))
    (known : fs₁.directories = fs.directories ∨ fs₁.directories = fs'.directories)
    (clear : ∀ p ∈ fs'.directories, ∀ c, fs₁.node? p ≠ some (.file c)) :
    ∃ fs₂, fs₁.makeDirectories path = (fs₂, .ok ()) ∧ fs₂.directories = fs'.directories := by
  obtain ⟨there, whole⟩ := makeDirectories_eq_ok made
  rcases known with same | same
  · have trail : Path.trail path ⊆ fs'.directories := trail_subset_of_isDirectory there
    have keeps := (Within.makeDirectories fs path).toKeeps
    rw [made] at keeps
    have clear' : ∀ p ∈ Path.trail path, ∀ c, fs.node? p ≠ some (.file c) := by
      intro p inside c file
      exact nomatch ((keeps.elsewhere p c not_false).mpr file).symm.trans (trail inside)
    have alike : Alike (Path.trail path) fs fs₁ :=
      alike_of_clear (fun p _ => by rw [same]) clear' fun p inside => clear p (trail inside)
    rcases result : fs₁.makeDirectories path with ⟨fs₂, done⟩
    obtain rfl : .ok () = done := by
      have both := alike.makeDirectories
      rw [made, result] at both
      exact both
    exact ⟨fs₂, rfl, by rw [(makeDirectories_eq_ok result).2, same, whole]⟩
  · exact ⟨fs₁, makeDirectories_of_isDirectory (isDirectory_mono same.ge there), same⟩

/-! ### Files that come and go among the same directories -/

theorem directories_write {c : Content} (h : fs.write path c = .ok fs') :
    fs'.directories = fs.directories := by
  obtain ⟨_, p, _, free, rfl⟩ := write_eq_ok h
  exact directories_put free

theorem directories_remove (h : fs.remove path = .ok fs') : fs'.directories = fs.directories := by
  obtain ⟨p, c, _, there, rfl⟩ := remove_eq_ok_iff.mp h
  ext q
  show ({ fs with nodes := fs.nodes.erase p } : Files).node? q = _ ↔ _
  rw [node?_erase, mem_directories]
  split_ifs with root same
  · rw [root]
    exact ⟨fun _ => rfl, fun _ => rfl⟩
  · rw [same, there]
    exact ⟨nofun, nofun⟩
  · rfl

theorem directories_removeIfThere (h : fs.removeIfThere path = .ok fs') :
    fs'.directories = fs.directories := by
  rcases removeIfThere_eq_ok h with rfl | removed
  · rfl
  · exact directories_remove removed

theorem directories_updateOpen (fs : Files) (f : OpenFile) (change : Content → Content) :
    (fs.updateOpen f change).directories = fs.directories := by
  unfold updateOpen
  split
  · rename_i there
    split_ifs
    · refine directories_put ?_
      rw [mem_directories, there]
      exact nofun
    · rfl
  · rfl

theorem locate_of_directories {fs₁ : Files} (plain : IsPlain path)
    (same : fs.directories = fs₁.directories) : fs.locate path = .ok p ↔ fs₁.locate path = .ok p :=
  ⟨(keeps_of_subset same.le).locate plain, (keeps_of_subset same.ge).locate plain⟩

/-- A way through directories that are not all there yet ends where one is missing. -/
theorem follow_of_more
    (clear : ∀ p ∈ fs'.directories, ∀ c, fs.node? p ≠ some (.file c)) {steps : List String}
    (h : fs'.follow p steps = .ok q) :
    fs.follow p steps = .ok q ∨ fs.follow p steps = .error .notFound := by
  induction steps generalizing p with
  | nil => exact .inl h
  | cons step steps ih =>
    obtain ⟨here, allowed, rest⟩ := follow_cons.mp h
    cases there : fs.node? p with
    | none =>
      rw [Files.follow, there]
      exact .inr rfl
    | some n =>
      cases n with
      | file c => exact absurd there (clear p here c)
      | directory =>
        refine (ih rest).imp (fun found => follow_cons.mpr ⟨there, allowed, found⟩) fun lost => ?_
        rw [Path.next] at lost
        rw [Files.follow, there]
        dsimp only
        rcases allowed with rfl | ⟨rfl, up⟩ | ⟨dot, dots, named⟩
        · exact lost
        · rw [if_neg (by decide), if_pos rfl] at lost ⊢
          rwa [if_neg up]
        · rw [if_neg dot, if_neg dots] at lost ⊢
          rwa [if_pos named]

/-- A place that is to be a file's can be cleared, also before its directory is there. -/
theorem removeIfThere_of_more (plain : IsPlain path) (more : fs.directories ⊆ fs'.directories)
    (clear : ∀ p ∈ fs'.directories, ∀ c, fs.node? p ≠ some (.file c))
    (found : fs'.locate path = .ok p) (free : p ∉ fs'.directories) :
    ∃ fs₁, fs.removeIfThere path = .ok fs₁ := by
  obtain ⟨fits, relative, followed⟩ := (locate_eq_ok plain).mp found
  have way : fs.locate path = .ok p ∨ fs.locate path = .error .notFound := by
    refine (follow_of_more clear followed).imp
      (fun h => (locate_eq_ok plain).mpr ⟨fits, relative, h⟩) fun h => ?_
    rw [locate, fits, relative, h]
    rfl
  unfold removeIfThere
  rcases way with here | lost
  · cases there : fs.node? p with
    | none =>
      have gone : fs.remove path = .error .notFound := by
        unfold remove
        rw [here]
        simp only [bind, Except.bind]
        rw [there]
      rw [gone]
      exact ⟨fs, rfl⟩
    | some n =>
      cases n with
      | directory => exact absurd (more there) free
      | file c =>
        obtain ⟨fs₁, removed⟩ := remove_of_file here there
        rw [removed]
        exact ⟨fs₁, rfl⟩
  · have gone : fs.remove path = .error .notFound := by
      unfold remove
      rw [lost]
      rfl
    rw [gone]
    exact ⟨fs, rfl⟩

theorem write_of_free {c : Content} (plain : IsPlain path) (found : fs.locate path = .ok p)
    (free : p ∉ fs.directories) : fs.write path c = .ok (fs.put p (.file c)) := by
  refine except_bind_eq_ok.mpr ⟨p, found, ?_⟩
  cases there : fs.node? p with
  | none => exact if_neg (by rw [show ends "/" path = false from plain]; exact Bool.false_ne_true)
  | some n =>
    cases n with
    | directory => exact absurd there free
    | file old => rfl

end Files

end ModRemap
