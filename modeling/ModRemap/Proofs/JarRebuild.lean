import Mathlib
import ModRemap.Archive.Jar
import ModRemap.Proofs.MovedFiles

/-! How a jar is built again in a file beside it. Only that file changes until it is moved to the place
of the jar, so that a failure leaves the files as they were. -/

namespace ModRemap

namespace Jar

theorem file_eq_ok {α : Type} {x : Except FileError α} {a : α} : file x = .ok a ↔ x = .ok a := by
  cases x with
  | error e => exact ⟨nofun, nofun⟩
  | ok b => rw [file, Except.ok.injEq, Except.ok.injEq]

theorem file_congr {α : Type} {x y : Except FileError α} (same : ∀ a, x = .ok a ↔ y = .ok a) :
    file x = file y := by
  cases x with
  | error e =>
    cases y with
    | error e' => rfl
    | ok b => exact nomatch (same b).mpr rfl
  | ok a => rw [(same a).mp rfl]

theorem list_put {fs : Files} {p : Place} {path : String} {c : Content} (free : fs.node? p = none)
    (other : fs.locate path ≠ .ok p) : list (fs.put p (.file c)) path = list fs path := by
  rw [list, list, file_congr fun _ => Files.open?_put free other]

theorem exists_file_of_list {fs : Files} {path : String} {listed : List Listed}
    (whole : list fs path = .ok listed) :
    ∃ c p, fs.locate path = .ok p ∧ fs.node? p = some (.file c) := by
  obtain ⟨n, opened, known⟩ := except_bind_eq_ok.mp whole
  obtain ⟨p, found, there⟩ := Files.open?_eq_ok.mp (file_eq_ok.mp opened)
  cases n with
  | directory => cases known
  | file c => exact ⟨c, p, found, there⟩

theorem file_of_list {fs : Files} {p : Place} {path : String} {listed : List Listed}
    (whole : list fs path = .ok listed) (found : fs.locate path = .ok p) :
    ∃ c, fs.node? p = some (.file c) := by
  obtain ⟨c, q, found', there⟩ := exists_file_of_list whole
  obtain rfl := Except.ok.inj (found.symm.trans found')
  exact ⟨c, there⟩

/-- All that is kept of the entries. -/
def carry (replaced : String → Bool) : List Listed → Except JarError (List Entry)
  | [] => .ok []
  | e :: es => do
    let first ← carryEntry replaced e
    return first.toList ++ (← carry replaced es)

theorem carry_cons {replaced : String → Bool} {e : Listed} {first : Option Entry}
    (opened : carryEntry replaced e = .ok first) (es : List Listed) :
    carry replaced (e :: es) = (carry replaced es).map (first.toList ++ ·) := by
  rw [carry, opened]
  cases carry replaced es <;> rfl

end Jar

namespace StagedJar

variable {fs : Files} {p : Place}

/-- The jar that is staged at a place, with these entries written. -/
def holding (fs : Files) (p : Place) (written : List Entry) : StagedJar :=
  ⟨fs.put p (.file (.begun written)), ⟨p, fs.turn p⟩, written⟩

theorem updateOpen_put (free : fs.node? p = none) (c : Content) (change : Content → Content) :
    (fs.put p (.file c)).updateOpen ⟨p, fs.turn p⟩ change = fs.put p (.file (change c)) := by
  have here : (fs.put p (.file c)).node? p = some (.file c) :=
    Files.node?_put_self (Files.not_mem_directories_of_none free)
  have turn : (fs.put p (.file c)).turn p = fs.turn p := rfl
  rw [Files.updateOpen, here]
  dsimp only
  rw [if_pos turn, Files.put_put]

theorem write_holding (free : fs.node? p = none) (written : List Entry) (e : Entry) :
    (holding fs p written).write e = holding fs p (written ++ [e]) := by
  rw [write, holding, updateOpen_put free, Content.extend, if_pos rfl]
  rfl

theorem writes_holding (free : fs.node? p = none) (written es : List Entry) :
    es.foldl write (holding fs p written) = holding fs p (written ++ es) := by
  induction es generalizing written with
  | nil => rw [List.foldl_nil, List.append_nil]
  | cons e es ih => rw [List.foldl_cons, write_holding free, ih, List.append_assoc, List.singleton_append]

theorem close_holding (free : fs.node? p = none) (written : List Entry) :
    (holding fs p written).close = ⟨fs.put p (.file (.archive written)), ⟨p, fs.turn p⟩, written⟩ := by
  rw [close, holding, updateOpen_put free, Content.close, if_pos rfl]

/-- Whatever has been written by then, only the staged file has changed at the first fault. -/
theorem carry_holding (free : fs.node? p = none) (replaced : String → Bool) (written : List Entry)
    (listed : List Listed) : ∃ now, (holding fs p written).carry replaced listed =
      (holding fs p now, (Jar.carry replaced listed).map fun _ => ()) ∧
        ∀ kept, Jar.carry replaced listed = .ok kept → now = written ++ kept := by
  induction listed generalizing written with
  | nil =>
    refine ⟨written, rfl, fun kept none => ?_⟩
    rw [← Except.ok.inj none, List.append_nil]
  | cons e listed ih =>
    rw [carry]
    cases opened : Jar.carryEntry replaced e with
    | error fault =>
      have stops : Jar.carry replaced (e :: listed) = .error fault := by
        rw [Jar.carry, opened]
        rfl
      rw [stops]
      exact ⟨written, rfl, nofun⟩
    | ok first =>
      rw [Jar.carry_cons opened]
      cases first with
      | none =>
        have same : (Jar.carry replaced listed).map ((none : Option Entry).toList ++ ·) =
            Jar.carry replaced listed := by
          cases Jar.carry replaced listed <;> rfl
        rw [same]
        exact ih written
      | some e' =>
        obtain ⟨now, goes, all⟩ := ih (written ++ [e'])
        dsimp only
        rw [write_holding free, goes]
        cases rest : Jar.carry replaced listed with
        | error fault => exact ⟨now, rfl, nofun⟩
        | ok others =>
          refine ⟨now, rfl, fun kept carried => ?_⟩
          rw [all others rest, ← Except.ok.inj carried, List.append_assoc]
          rfl

theorem finish_error (free : fs.node? p = none) (path : String) (written : List Entry) (e : JarError) :
    (holding fs p written).finish path (.error e) = (fs, .error e) := by
  rw [finish, holding, Files.drop_put free]

theorem finish_close {path : String} {q : Place} {old : Content} (free : fs.node? p = none)
    (found : fs.locate path = .ok q) (there : fs.node? q = some (.file old)) (written : List Entry) :
    (holding fs p written).close.finish path (.ok ()) =
      ((fs.put q (.file (.archive written))).detach q, .ok ()) := by
  rw [close_holding free, finish, Files.move_put free found there]

end StagedJar

namespace Jar

variable {fs : Files} {path : String}

/-- What becomes of the files if nothing is staged. -/
def repack (fs : Files) (path : String) (replacements : Dict String Bytes) : Except JarError Files := do
  let listed ← list fs path
  let kept ← carry replacements.contains listed
  file (fs.replace path (.archive (kept ++ replacements.entries.map fun p => ⟨p.1, p.2⟩)))

def rebuilt (fs : Files) (path : String) (replacements : Dict String Bytes) : Except JarError Files :=
  if replacements.size = 0 then .ok fs
  else if fs.isDirectory (Path.parent path) then repack fs path (named replacements)
  else .error .io

/-- The files after a change, which are the same as before when it fails. -/
def settle (fs : Files) : Except JarError Files → Files × Except JarError Unit
  | .ok files => (files, .ok ())
  | .error e => (fs, .error e)

/-- A jar that is staged where nothing was takes the place of the old one, or leaves nothing behind. -/
theorem rebuildAt_eq {p : Place} (free : fs.node? p = none) (other : fs.locate path ≠ .ok p)
    (replacements : Dict String Bytes) :
    rebuildAt p fs path replacements = settle fs (repack fs path replacements) := by
  have started : StagedJar.start fs p = StagedJar.holding fs p [] := rfl
  have same : list (StagedJar.holding fs p []).files path = list fs path := list_put free other
  rw [rebuildAt, started, StagedJar.fill, same]
  cases whole : list fs path with
  | error e =>
    have fails : repack fs path replacements = .error e := by
      rw [repack, whole]
      rfl
    rw [fails]
    exact StagedJar.finish_error free path [] e
  | ok listed =>
    obtain ⟨now, goes, all⟩ := StagedJar.carry_holding free replacements.contains [] listed
    dsimp only
    rw [goes]
    cases carried : carry replacements.contains listed with
    | error e =>
      have fails : repack fs path replacements = .error e := by
        rw [repack, whole]
        show (carry replacements.contains listed >>= _) = _
        rw [carried]
        rfl
      rw [fails]
      exact StagedJar.finish_error free path now e
    | ok kept =>
      obtain rfl : now = kept := all kept carried
      obtain ⟨old, q, found, there⟩ := exists_file_of_list whole
      let added : List Entry := replacements.entries.map fun p => ⟨p.1, p.2⟩
      have replaced := Files.replace_of_free (.archive (now ++ added)) (Files.isPlain_of_file found there)
        found (Files.not_mem_directories_of_file there)
      have works : repack fs path replacements =
          .ok ((fs.put q (.file (.archive (now ++ added)))).detach q) :=
        except_bind_eq_ok.mpr ⟨listed, whole,
          except_bind_eq_ok.mpr ⟨now, carried, file_eq_ok.mpr replaced⟩⟩
      rw [works]
      dsimp only [Except.map]
      rw [StagedJar.writes_holding free]
      exact StagedJar.finish_close free found there (now ++ added)

theorem rebuild_eq (fs : Files) (path : String) (replacements : Dict String Bytes) :
    rebuild fs path replacements = settle fs (rebuilt fs path replacements) := by
  rw [rebuild, rebuilt]
  by_cases none : replacements.size = 0
  · rw [if_pos none, if_pos none]
    rfl
  · rw [if_neg none, if_neg none]
    cases found : fs.locate (Path.parent path) with
    | error e =>
      have missing : ¬fs.isDirectory (Path.parent path) = true := by
        rw [Files.isDirectory_eq_true]
        exact fun ⟨p, found', _⟩ => nomatch found.symm.trans found'
      rw [if_neg missing]
      rfl
    | ok directory =>
      by_cases there : fs.node? directory = some .directory
      · have known := Files.isDirectory_eq_true.mpr ⟨directory, found, there⟩
        obtain ⟨free, other⟩ := fs.spare_is_free directory path
        rw [if_pos known, ← rebuildAt_eq free other]
        exact if_pos there
      · have missing : ¬fs.isDirectory (Path.parent path) = true := by
          rw [Files.isDirectory_eq_true]
          rintro ⟨p, found', there'⟩
          obtain rfl := Except.ok.inj (found.symm.trans found')
          exact there there'
        rw [if_neg missing]
        exact if_neg there

theorem overwrite_eq (fs : Files) (path : String) (replacements : Dict String Bytes) :
    overwrite fs path replacements = rebuilt fs path replacements := by
  rw [overwrite, rebuild_eq]
  cases rebuilt fs path replacements <;> rfl

end Jar
end ModRemap
