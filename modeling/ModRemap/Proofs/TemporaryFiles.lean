import Mathlib
import ModRemap.Mods.Artifact
import ModRemap.Proofs.FileChanges
import ModRemap.Proofs.Paths

/-! Copies of jars, under a name that is given or under a fresh one, which is the first of the numbered ones
that names nothing yet. -/

namespace ModRemap

namespace Files

variable {fs fs' : Files} {p q : Place}

theorem isPlain_of_jar {path : String} {u : List Char} (h : path.toList = u ++ ".jar".toList) :
    IsPlain path := by
  unfold IsPlain
  by_contra slash
  obtain ⟨r, split⟩ := ends_iff.mp (Bool.eq_true_of_not_eq_false slash)
  rw [h, show ".jar".toList = ".ja".toList ++ ['r'] from rfl, ← List.append_assoc] at split
  have last := (List.append_inj' split rfl).2
  exact nomatch last

theorem follow_last {front : List String} {step : String} (h : fs.follow p (front ++ [step]) = .ok q)
    (name : step ≠ "." ∧ step ≠ "..") : ∃ q', q = q' ++ [step] := by
  induction front generalizing p with
  | nil =>
    rw [List.nil_append, follow] at h
    split at h
    · cases h
    · cases h
    · rw [if_neg name.1, if_neg name.2] at h
      split_ifs at h
      exact ⟨p, (Except.ok.inj h).symm⟩
  | cons first front ih =>
    rw [List.cons_append, follow] at h
    split at h
    · cases h
    · cases h
    · split_ifs at h
      · exact ih h
      · exact ih h
      · exact ih h

theorem exists?_iff {path : String} :
    fs.exists? path = true ↔ ∃ p n, fs.locate path = .ok p ∧ fs.node? p = some n := by
  have opened (n : Node) : fs.open? path = .ok n ↔ ∃ p, fs.locate path = .ok p ∧ fs.node? p = some n := by
    unfold open?
    rw [except_bind_eq_ok]
    refine exists_congr fun p => and_congr_right fun _ => ?_
    cases fs.node? p with
    | none => exact ⟨nofun, nofun⟩
    | some m => rw [Except.ok.injEq, Option.some.injEq]
  unfold exists?
  cases result : fs.open? path with
  | ok n =>
    obtain ⟨p, found, there⟩ := (opened n).mp result
    exact ⟨fun _ => ⟨p, n, found, there⟩, fun _ => rfl⟩
  | error e =>
    refine ⟨nofun, fun ⟨p, n, found, there⟩ => ?_⟩
    exact nomatch result.symm.trans ((opened n).mpr ⟨p, found, there⟩)

theorem read_of_write {path : String} {c : Content} (written : fs.write path c = .ok fs') :
    fs'.read path = .ok c := by
  obtain ⟨plain, p, found, free, rfl⟩ := write_eq_ok written
  exact read_eq_ok.mpr ⟨p, (Within.put free).toKeeps.locate plain found, node?_put_self free⟩

/-- The place of a jar ends in what stands after the last slash of its path. -/
theorem last_of_jar (fs : Files) (u : List Char) : ∃ last : List Char, ∀ path v p, '/' ∉ v →
    path.toList = u ++ (v ++ ".jar".toList) → fs.locate path = .ok p →
      p.getLast? = some (String.ofList (last ++ (v ++ ".jar".toList))) := by
  obtain ⟨front, last, spec⟩ := Path.steps_append u
  refine ⟨last, fun path v p clear text found => ?_⟩
  have plain : '/' ∉ v ++ ".jar".toList := by
    rw [List.mem_append, not_or]
    exact ⟨clear, by decide⟩
  have steps := spec path _ plain (by simp) text
  obtain ⟨_, _, followed⟩ := (locate_eq_ok (isPlain_of_jar
    (text.trans (List.append_assoc ..).symm))).mp found
  rw [steps] at followed
  have long : 2 < (String.ofList (last ++ (v ++ ".jar".toList))).toList.length := by
    have suffix : ".jar".toList.length = 4 := rfl
    rw [String.toList_ofList, List.length_append, List.length_append]
    omega
  have name : String.ofList (last ++ (v ++ ".jar".toList)) ≠ "." ∧
      String.ofList (last ++ (v ++ ".jar".toList)) ≠ ".." := by
    refine ⟨fun dot => ?_, fun dots => ?_⟩
    · rw [dot] at long
      exact absurd long (by decide)
    · rw [dots] at long
      exact absurd long (by decide)
  obtain ⟨q', rfl⟩ := follow_last followed name
  exact List.getLast?_concat

/-- All numbers before the one that is chosen are taken. -/
theorem freeName_eq_ok {directory stem suffix name : String} {tries n : ℕ} :
    fs.freeName directory stem suffix tries n = .ok name ↔
      ∃ i < tries, name = stem ++ toString (n + i) ++ suffix ∧
        fs.exists? (Path.join directory name) = false ∧
        ∀ j < i, fs.exists? (Path.join directory (stem ++ toString (n + j) ++ suffix)) = true := by
  induction tries generalizing n with
  | zero => exact ⟨nofun, fun ⟨i, few, _⟩ => absurd few (Nat.not_lt_zero i)⟩
  | succ tries ih =>
    unfold freeName
    dsimp only
    split_ifs with used
    · rw [ih]
      constructor
      · rintro ⟨i, more, rfl, free, before⟩
        refine ⟨i + 1, Nat.succ_lt_succ more, ?_, ?_, fun j earlier => ?_⟩
        · rw [Nat.add_right_comm, Nat.add_assoc]
        · exact free
        · cases j with
          | zero => exact used
          | succ j =>
            rw [← Nat.add_assoc, Nat.add_right_comm]
            exact before j (Nat.lt_of_succ_lt_succ earlier)
      · rintro ⟨i, more, rfl, free, before⟩
        cases i with
        | zero => exact nomatch used.symm.trans free
        | succ i =>
          refine ⟨i, Nat.lt_of_succ_lt_succ more, ?_, free, fun j earlier => ?_⟩
          · rw [← Nat.add_assoc, Nat.add_right_comm]
          · rw [Nat.add_right_comm, Nat.add_assoc]
            exact before (j + 1) (Nat.succ_lt_succ earlier)
    · constructor
      · intro h
        obtain rfl := Except.ok.inj h
        exact ⟨0, Nat.succ_pos _, rfl, Bool.eq_false_of_not_eq_true used,
          fun j few => absurd few (Nat.not_lt_zero j)⟩
      · rintro ⟨i, _, rfl, _, before⟩
        cases i with
        | zero => rfl
        | succ i => exact absurd (before 0 (Nat.succ_pos i)) used

end Files

namespace Artifact

open Files

variable {a : Artifact} {fs fs' : Files} {directory : String}

/-- The jar of a mod, in memory or on disk. -/
def jar (a : Artifact) (fs : Files) : Except FileError Content :=
  match a.source with
  | .memory c => .ok c
  | .path p => fs.read p

theorem fill_eq_ok_iff {target : String} : a.fill fs target = .ok fs' ↔
    ∃ c, a.jar fs = .ok c ∧ fs.write target c = .ok fs' := by
  unfold fill jar
  cases a.source with
  | memory c => exact ⟨fun h => ⟨c, rfl, h⟩, fun ⟨_, same, h⟩ => Except.ok.inj same ▸ h⟩
  | path path => exact except_bind_eq_ok

theorem fill_eq_ok {target : String} (h : a.fill fs target = .ok fs') :
    IsPlain target ∧ ∃ p c, fs.locate target = .ok p ∧ Within (· = p) fs fs' ∧
      fs'.node? p = some (.file c) ∧ ∀ jar, a.source = .memory jar → c = jar := by
  obtain ⟨c, own, written⟩ := fill_eq_ok_iff.mp h
  obtain ⟨plain, p, found, free, rfl⟩ := write_eq_ok written
  refine ⟨plain, p, c, found, .put free, node?_put_self free, fun _ source => ?_⟩
  rw [jar, source] at own
  exact (Except.ok.inj own).symm

theorem prepare_error {name : Files → Except FileError String} {e : FileError}
    (h : prepare fs directory name = (fs', .error e)) : Within (fun _ => False) fs fs' := by
  have made := Within.makeDirectories fs directory
  unfold prepare at h
  split at h
  · rename_i failed
    obtain ⟨rfl, _⟩ := Prod.mk.inj h
    rwa [failed] at made
  · rename_i done
    rw [done] at made
    split at h
    · obtain ⟨rfl, _⟩ := Prod.mk.inj h
      exact made
    · split at h
      · obtain ⟨rfl, _⟩ := Prod.mk.inj h
        exact made
      · exact nomatch (Prod.mk.inj h).2

theorem prepare_eq_ok {name : Files → Except FileError String} {target : String} :
    prepare fs directory name = (fs', .ok target) ↔ ∃ fs₁ file,
      fs.makeDirectories directory = (fs₁, .ok ()) ∧ name fs₁ = .ok file ∧
        target = Path.join directory file ∧ fs₁.write target (.data []) = .ok fs' := by
  unfold prepare
  constructor
  · intro h
    split at h
    · exact nomatch (Prod.mk.inj h).2
    · rename_i fs₁ made
      split at h
      · exact nomatch (Prod.mk.inj h).2
      · rename_i file named
        split at h
        · exact nomatch (Prod.mk.inj h).2
        · rename_i filled written
          obtain ⟨rfl, target'⟩ := Prod.mk.inj h
          obtain rfl := Except.ok.inj target'
          exact ⟨fs₁, file, made, named, rfl, written⟩
  · rintro ⟨fs₁, file, made, named, rfl, written⟩
    simp only [made, named, written]

theorem prepare_place {name : Files → Except FileError String} {target : String}
    (h : prepare fs directory name = (fs', .ok target)) : IsPlain target ∧
      ∃ p, fs'.locate target = .ok p ∧ Within (· = p) fs fs' ∧ fs'.node? p = some (.file (.data [])) := by
  obtain ⟨fs₁, file, done, _, rfl, written⟩ := prepare_eq_ok.mp h
  have made := Within.makeDirectories fs directory
  rw [done] at made
  obtain ⟨plain, p, found, free, rfl⟩ := write_eq_ok written
  have puts : Within (· = p) fs₁ (fs₁.put p (.file (.data []))) := .put free
  exact ⟨plain, p, puts.toKeeps.locate plain found, (made.mono nofun).trans puts, node?_put_self free⟩

theorem prepare_fresh {stem target : String}
    (h : prepare fs directory (fun fs => fs.fresh directory stem ".jar") = (fs', .ok target)) :
    ∃ p, fs'.locate target = .ok p ∧ Within (· = p) fs fs' ∧
      (∀ c, fs.node? p ≠ some (.file c)) ∧ ∃ c, fs'.node? p = some (.file c) := by
  obtain ⟨fs₁, file, done, named, rfl, written⟩ := prepare_eq_ok.mp h
  have made := Within.makeDirectories fs directory
  rw [done] at made
  obtain ⟨n, _, _, unused, _⟩ := freeName_eq_ok.mp named
  obtain ⟨plain, p, found, free, rfl⟩ := write_eq_ok written
  have within : Within (· = p) fs₁ (fs₁.put p (.file (.data []))) := .put free
  refine ⟨p, within.toKeeps.locate plain found, (made.mono nofun).trans within, fun c there => ?_,
    _, node?_put_self free⟩
  -- A file that was there before the directory was made would still be there.
  have used := exists?_iff.mpr ⟨p, _, found, (made.elsewhere p c not_false).mpr there⟩
  exact nomatch used.symm.trans unused

theorem stem_ne_empty (a : Artifact) : a.id ++ "-" ≠ "" := by
  intro empty
  have length := congrArg (fun s : String => s.toList.length) empty
  simp only [String.toList_append, List.length_append] at length
  exact nomatch length

section

variable (a)

/-- Copies the jar under its own file name, or under a new one. -/
@[irreducible]
def copy (temporary : Bool) (fs : Files) (directory : String) : Files × Except FileError String :=
  if temporary then a.copyToTemporary fs directory else a.copyTo fs directory

/-- The name that a copy gets. -/
@[irreducible]
def copyName (temporary : Bool) (directory : String) (fs : Files) : Except FileError String :=
  if temporary then fs.fresh directory (a.id ++ "-") ".jar" else .ok a.fileName

@[simp] theorem copy_true (fs : Files) (directory : String) :
    a.copy true fs directory = a.copyToTemporary fs directory := by
  rw [copy, if_pos rfl]

@[simp] theorem copy_false (fs : Files) (directory : String) :
    a.copy false fs directory = a.copyTo fs directory := by
  rw [copy, if_neg Bool.false_ne_true]

@[simp] theorem copyName_true (directory : String) :
    a.copyName true directory = fun fs => fs.fresh directory (a.id ++ "-") ".jar" := by
  funext fs
  rw [copyName, if_pos rfl]

@[simp] theorem copyName_false (directory : String) :
    a.copyName false directory = fun _ => .ok a.fileName := by
  funext fs
  rw [copyName, if_neg Bool.false_ne_true]

/-- The two ways differ in the name, and in what becomes of a file that cannot be filled. -/
theorem copy_eq (temporary : Bool) (fs : Files) (directory : String) :
    a.copy temporary fs directory =
      match prepare fs directory (a.copyName temporary directory) with
      | (fs, .error e) => (fs, .error e)
      | (fs, .ok target) =>
        match a.fill fs target with
        | .ok fs => (fs, .ok target)
        | .error e => (if temporary then (fs.remove target).toOption.getD fs else fs, .error e) := by
  -- What is prepared is not looked into: there are too many names that can be tried.
  cases temporary with
  | false =>
    rw [copy_false, copyName_false, copyTo]
    generalize prepare fs directory (fun _ => .ok a.fileName) = made
    rfl
  | true =>
    rw [copy_true, copyName_true, copyToTemporary]
    generalize prepare fs directory (fun fs => fs.fresh directory (a.id ++ "-") ".jar") = made
    rfl

end

theorem copy_eq_ok {temporary : Bool} {target : String} :
    a.copy temporary fs directory = (fs', .ok target) ↔ ∃ fs₁,
      prepare fs directory (a.copyName temporary directory) = (fs₁, .ok target) ∧
        a.fill fs₁ target = .ok fs' := by
  rw [copy_eq]
  constructor
  · intro h
    split at h
    · exact nomatch (Prod.mk.inj h).2
    · rename_i fs₁ target' prepared
      split at h
      · rename_i fs₂ filled
        obtain ⟨rfl, same⟩ := Prod.mk.inj h
        obtain rfl := Except.ok.inj same
        exact ⟨fs₁, prepared, filled⟩
      · exact nomatch (Prod.mk.inj h).2
  · rintro ⟨fs₁, prepared, filled⟩
    simp only [prepared, filled]

theorem copyToTemporary_eq_ok {target : String}
    (h : a.copyToTemporary fs directory = (fs', .ok target)) :
    IsPlain target ∧ ∃ p c, fs'.locate target = .ok p ∧ Within (· = p) fs fs' ∧
      (∀ c, fs.node? p ≠ some (.file c)) ∧ fs'.node? p = some (.file c) ∧
      ∀ jar, a.source = .memory jar → c = jar := by
  rw [← copy_true] at h
  obtain ⟨fs₁, prepared, filled⟩ := copy_eq_ok.mp h
  rw [copyName_true] at prepared
  obtain ⟨p, found, within, free, _⟩ := prepare_fresh prepared
  obtain ⟨plain, q, c, found', within', there, same⟩ := fill_eq_ok filled
  obtain rfl := Except.ok.inj (found.symm.trans found')
  exact ⟨plain, p, c, within'.toKeeps.locate plain found, within.trans within', free, there, same⟩

/-- The file that was made is gone when it cannot be filled. -/
theorem copyToTemporary_error {e : FileError}
    (h : a.copyToTemporary fs directory = (fs', .error e)) : Keeps (fun _ => False) fs fs' := by
  unfold copyToTemporary at h
  split at h
  · rename_i prepared
    obtain ⟨rfl, _⟩ := Prod.mk.inj h
    exact (prepare_error prepared).toKeeps
  · rename_i fs₁ target prepared
    obtain ⟨p, found, within, free, c, there⟩ := prepare_fresh prepared
    split at h
    · exact nomatch (Prod.mk.inj h).2
    · obtain ⟨fs₂, removed⟩ := remove_of_file found there
      obtain ⟨rfl, _⟩ := Prod.mk.inj h
      rw [removed]
      obtain ⟨_, q, found', within', gone, _⟩ := remove_eq_ok removed
      obtain rfl := Except.ok.inj (found.symm.trans found')
      have whole := within.trans within'
      refine ⟨whole.directories, fun q c' _ => ?_⟩
      by_cases here : q = p
      · rw [here]
        exact ⟨fun h => (nomatch gone.symm.trans h), fun h => absurd h (free c')⟩
      · exact whole.elsewhere q c' here

end Artifact

end ModRemap
