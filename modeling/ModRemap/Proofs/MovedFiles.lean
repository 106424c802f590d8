import Mathlib
import ModRemap.Proofs.MadeDirectories

/-! A file that is put where nothing is, and is moved over another one or taken away again. -/

namespace ModRemap

namespace Files

variable {fs : Files} {p q : Place} {path : String}

theorem node?_eq_none_iff : fs.node? p = none ↔ p ≠ [] ∧ fs.nodes.contains p = false := by
  rw [node?]
  split_ifs with root
  · simp [root]
  · rw [and_iff_right root, ← Bool.not_eq_true, Dict.contains_iff, ← Option.ne_none_iff_exists', not_not]

theorem put_put (fs : Files) (p : Place) (n m : Node) : (fs.put p n).put p m = fs.put p m :=
  congrArg (Files.mk · fs.turns) (Dict.insert_insert fs.nodes p n m)

theorem drop_put (free : fs.node? p = none) (n : Node) : (fs.put p n).drop p = fs :=
  congrArg (Files.mk · fs.turns) (Dict.erase_insert_of_new (node?_eq_none_iff.mp free).2 n)

theorem drop_put_of_ne (other : q ≠ p) (n : Node) : (fs.put q n).drop p = (fs.drop p).put q n :=
  congrArg (Files.mk · fs.turns) (Dict.erase_insert_of_ne fs.nodes other n)

theorem drop_detach (fs : Files) (p q : Place) : (fs.detach q).drop p = (fs.drop p).detach q := rfl

theorem open?_put {c : Content} {n : Node} (free : fs.node? p = none) (other : fs.locate path ≠ .ok p) :
    (fs.put p (.file c)).open? path = .ok n ↔ fs.open? path = .ok n := by
  have root := (node?_eq_none_iff.mp free).1
  have same : (fs.put p (.file c)).directories = fs.directories :=
    directories_put (not_mem_directories_of_none free)
  have follows (q : Place) : (fs.put p (.file c)).follow [] (Path.steps path) = .ok q ↔
      fs.follow [] (Path.steps path) = .ok q :=
    ⟨(keeps_of_subset same.le).follow, (keeps_of_subset same.ge).follow⟩
  rw [open?_eq_ok, open?_eq_ok]
  refine exists_congr fun q => ?_
  rw [locate_eq_ok_iff, locate_eq_ok_iff, follows]
  by_cases here : q = p
  · subst here
    have missing : ¬(isPath path = true ∧ Path.isAbsolute path = false ∧
        fs.follow [] (Path.steps path) = .ok q) := fun found =>
      other (locate_eq_ok_iff.mpr ⟨found, fun _ there => nomatch free.symm.trans there⟩)
    exact ⟨fun h => absurd h.1.1 missing, fun h => absurd h.1.1 missing⟩
  · have node : (fs.put p (.file c)).node? q = fs.node? q := by
      rw [node?_put, if_neg here]
      split_ifs with top
      · rw [top]
        rfl
      · rfl
    rw [node]

theorem replace_of_free (c : Content) (plain : IsPlain path) (found : fs.locate path = .ok p)
    (free : p ∉ fs.directories) : fs.replace path c = .ok ((fs.put p (.file c)).detach p) := by
  have written := write_of_free (c := c) plain found free
  have within : Within (· = p) fs (fs.put p (.file c)) := .put free
  have found' := within.toKeeps.locate plain found
  exact except_bind_eq_ok.mpr ⟨_, written, except_bind_eq_ok.mpr ⟨p, found', rfl⟩⟩

theorem move_put {c old : Content} (free : fs.node? p = none) (found : fs.locate path = .ok q)
    (there : fs.node? q = some (.file old)) :
    (fs.put p (.file c)).move p path = .ok ((fs.put q (.file c)).detach q) := by
  have root := (node?_eq_none_iff.mp free).1
  have root' : q ≠ [] := by
    rintro rfl
    exact nomatch there
  have other : q ≠ p := by
    rintro rfl
    exact nomatch free.symm.trans there
  have within : Within (· = p) fs (fs.put p (.file c)) := .put (not_mem_directories_of_none free)
  have plain := isPlain_of_file found there
  have found' := within.toKeeps.locate plain found
  have there' : (fs.put p (.file c)).node? q = some (.file old) := by
    rw [node?_put, if_neg root', if_neg other, there]
  have here : (fs.put p (.file c)).node? p = some (.file c) := by
    rw [node?_put, if_neg root, if_pos rfl]
  have replaced := replace_of_free c plain found' (not_mem_directories_of_file there')
  rw [move, here]
  dsimp only
  rw [replaced, Except.map, drop_detach, drop_put_of_ne other, drop_put free]

theorem numbered_injective (directory : Place) :
    Function.Injective fun n : ℕ => directory ++ [".tmp" ++ toString n] := by
  intro m n same
  have texts : ".tmp" ++ toString m = ".tmp" ++ toString n :=
    List.singleton_inj.mp (List.append_cancel_left same)
  have lists := congrArg String.toList texts
  rw [String.toList_append, String.toList_append] at lists
  exact Nat.repr_injective (String.toList_inj.mp (List.append_cancel_left lists))

theorem spare_is_free (fs : Files) (directory : Place) (path : String) :
    fs.node? (fs.spare directory path) = none ∧ fs.locate path ≠ .ok (fs.spare directory path) := by
  let numbered (n : ℕ) : Place := directory ++ [".tmp" ++ toString n]
  let places := (List.range (fs.nodes.size + 2)).map numbered
  let free (place : Place) : Bool := fs.node? place = none && (fs.locate path).toOption ≠ some place
  have spare_eq : fs.spare directory path = (places.find? free).getD directory := rfl
  cases found : places.find? free with
  | some place =>
    have isFree := List.find?_some found
    rw [Bool.and_eq_true, decide_eq_true_eq, decide_eq_true_eq] at isFree
    rw [spare_eq, found, Option.getD_some]
    exact ⟨isFree.1, fun names => isFree.2 (by rw [names]; rfl)⟩
  | none =>
    -- All candidates would be taken, but there are more of them than nodes.
    have distinct : places.Nodup := List.Nodup.map (numbered_injective directory) List.nodup_range
    have taken : places ⊆ (fs.locate path).toOption.toList ++ fs.nodes.keys := by
      intro place inside
      have isTaken := List.find?_eq_none.mp found place inside
      obtain ⟨n, -, rfl⟩ := List.mem_map.mp inside
      have below : numbered n ≠ [] := by simp [numbered]
      rw [List.mem_append, Option.mem_toList]
      by_contra neither
      obtain ⟨unnamed, absent⟩ := not_or.mp neither
      have nothing := node?_eq_none_iff.mpr ⟨below, Dict.contains_eq_false_iff.mpr absent⟩
      simp only [free, nothing] at isTaken
      simp at isTaken
      exact unnamed isTaken
    have fewer := (List.subperm_of_subset distinct taken).length_le
    have one : (fs.locate path).toOption.toList.length ≤ 1 := by
      cases (fs.locate path).toOption <;> simp
    simp only [places, List.length_map, List.length_range, List.length_append, Dict.keys, Dict.size] at fewer
    omega

end Files

end ModRemap
