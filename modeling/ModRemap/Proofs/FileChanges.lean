import Mathlib
import ModRemap.Proofs.Dict
import ModRemap.Proofs.Reader
import ModRemap.Store.Files

/-! What an operation on files leaves alone. Directories stay, so that a path leads where it led,
and a file changes only at the place that is named. -/

namespace ModRemap.Files

variable {fs fs' fs'' : Files} {P Q : Place → Prop} {path : String} {p q : Place}

theorem node?_put (fs : Files) (p : Place) (n : Node) (q : Place) :
    (fs.put p n).node? q =
      if q = [] then some .directory else if q = p then some n else fs.node? q := by
  unfold node? put
  split_ifs with root same
  · rfl
  · rw [Dict.get?_insert, if_pos same]
  · rw [Dict.get?_insert, if_neg same]

theorem node?_erase (fs : Files) (p q : Place) :
    ({ fs with nodes := fs.nodes.erase p } : Files).node? q =
      if q = [] then some .directory else if q = p then none else fs.node? q := by
  unfold node?
  split_ifs with root same
  · rfl
  · rw [Dict.get?_erase, if_pos same]
  · rw [Dict.get?_erase, if_neg same]

theorem turn_detach (fs : Files) (p q : Place) :
    (fs.detach p).turn q = if q = p then fs.turn p + 1 else fs.turn q := by
  unfold detach turn
  rw [Dict.get?_insert]
  split_ifs <;> rfl

/-- Directories stay, and so do the files outside of `P`. No other file comes to be there. -/
structure Keeps (P : Place → Prop) (fs fs' : Files) : Prop where
  directories : ∀ p, fs.node? p = some .directory → fs'.node? p = some .directory
  elsewhere : ∀ p c, ¬P p → (fs'.node? p = some (.file c) ↔ fs.node? p = some (.file c))

namespace Keeps

theorem refl (P : Place → Prop) (fs : Files) : Keeps P fs fs := ⟨fun _ h => h, fun _ _ _ => .rfl⟩

theorem trans (h : Keeps P fs fs') (h' : Keeps P fs' fs'') : Keeps P fs fs'' where
  directories p there := h'.directories p (h.directories p there)
  elsewhere p c outside := (h'.elsewhere p c outside).trans (h.elsewhere p c outside)

theorem mono (h : Keeps P fs fs') (wider : ∀ p, P p → Q p) : Keeps Q fs fs' where
  directories := h.directories
  elsewhere p c outside := h.elsewhere p c fun inside => outside (wider p inside)

/-- What is left once it is forgotten where the files have changed. -/
theorem forget (h : Keeps P fs fs') : Keeps (fun _ => True) fs fs' := h.mono fun _ _ => trivial

theorem follow (h : Keeps P fs fs') {steps : List String} (found : fs.follow p steps = .ok q) :
    fs'.follow p steps = .ok q := by
  induction steps generalizing p with
  | nil => exact found
  | cons step steps ih =>
    rw [Files.follow] at found ⊢
    cases there : fs.node? p with
    | none =>
      rw [there] at found
      exact nomatch found
    | some n =>
      cases n with
      | file c =>
        rw [there] at found
        exact nomatch found
      | directory =>
        rw [there] at found
        rw [h.directories p there]
        dsimp only at found ⊢
        split_ifs at found ⊢ with same up root
        · exact ih found
        · exact ih found
        · exact ih found

end Keeps

/-- The path names a place even when a file is there. -/
def IsPlain (path : String) : Prop := ends "/" path = false

/-- A path names a place as far as the directories go, unless it wants a directory where a file is. -/
theorem locate_eq_ok_iff : fs.locate path = .ok p ↔ (isPath path = true ∧
    Path.isAbsolute path = false ∧ fs.follow [] (Path.steps path) = .ok p) ∧
      ∀ c, fs.node? p = some (.file c) → IsPlain path := by
  unfold locate IsPlain
  cases isPath path with
  | false => exact ⟨nofun, nofun⟩
  | true =>
    cases Path.isAbsolute path with
    | true => exact ⟨nofun, nofun⟩
    | false =>
      cases fs.follow [] (Path.steps path) with
      | error e => exact ⟨nofun, nofun⟩
      | ok q =>
        rw [if_neg (by decide), if_neg (by decide)]
        dsimp only
        split
        · rename_i c slash there
          refine ⟨nofun, fun h => ?_⟩
          obtain rfl := Except.ok.inj h.1.2.2
          exact nomatch slash.symm.trans (h.2 _ there)
        · rename_i other
          refine ⟨fun h => ⟨⟨rfl, rfl, h⟩, fun c there => ?_⟩, fun h => h.1.2.2⟩
          obtain rfl := Except.ok.inj h
          exact Bool.eq_false_of_not_eq_true fun slash => other c slash there

theorem locate_eq_ok (plain : IsPlain path) : fs.locate path = .ok p ↔
    isPath path = true ∧ Path.isAbsolute path = false ∧ fs.follow [] (Path.steps path) = .ok p := by
  rw [locate_eq_ok_iff, and_iff_left fun _ _ => plain]

theorem Keeps.locate (h : Keeps P fs fs') (plain : IsPlain path) (found : fs.locate path = .ok p) :
    fs'.locate path = .ok p := by
  obtain ⟨fits, relative, found⟩ := (locate_eq_ok plain).mp found
  exact (locate_eq_ok plain).mpr ⟨fits, relative, h.follow found⟩

theorem follow_of_locate (found : fs.locate path = .ok p) : fs.follow [] (Path.steps path) = .ok p :=
  (locate_eq_ok_iff.mp found).1.2.2

theorem isPlain_of_file {c : Content} (found : fs.locate path = .ok p)
    (there : fs.node? p = some (.file c)) : IsPlain path :=
  (locate_eq_ok_iff.mp found).2 c there

/-- Open files keep their places outside of `P`. -/
structure Within (P : Place → Prop) (fs fs' : Files) : Prop extends Keeps P fs fs' where
  turns : ∀ p, ¬P p → fs'.turn p = fs.turn p

namespace Within

theorem refl (P : Place → Prop) (fs : Files) : Within P fs fs := ⟨.refl P fs, fun _ _ => rfl⟩

theorem trans (h : Within P fs fs') (h' : Within P fs' fs'') : Within P fs fs'' where
  toKeeps := h.toKeeps.trans h'.toKeeps
  turns p outside := (h'.turns p outside).trans (h.turns p outside)

theorem mono (h : Within P fs fs') (wider : ∀ p, P p → Q p) : Within Q fs fs' where
  toKeeps := h.toKeeps.mono wider
  turns p outside := h.turns p fun inside => outside (wider p inside)

/-- A file that is taken away. -/
theorem erase {c : Content} (there : fs.node? p = some (.file c)) :
    Within (· = p) fs { fs with nodes := fs.nodes.erase p } := by
  refine ⟨⟨fun q dir => ?_, fun q c' other => ?_⟩, fun _ _ => rfl⟩
  · rw [node?_erase]
    split_ifs with root same
    · rfl
    · rw [same, there] at dir
      exact nomatch dir
    · exact dir
  · rw [node?_erase]
    split_ifs with root
    · rw [root]
      exact ⟨nofun, nofun⟩
    · rfl

/-- A file that is put where no directory is. -/
theorem put {c : Content} (free : fs.node? p ≠ some .directory) :
    Within (· = p) fs (fs.put p (.file c)) where
  directories q there := by
    rw [node?_put]
    split_ifs with root same
    · rfl
    · exact absurd (same ▸ there) free
    · exact there
  elsewhere q c' other := by
    rw [node?_put]
    split_ifs with root
    · rw [root]
      exact ⟨nofun, nofun⟩
    · rfl
  turns _ _ := rfl

theorem detach (fs : Files) (p : Place) : Within (· = p) fs (fs.detach p) where
  directories _ there := there
  elsewhere _ _ _ := .rfl
  turns q other := by rw [turn_detach, if_neg other]

/-- A directory that is made where nothing is. -/
theorem makeDirectory (made : fs.makeDirectory path = .ok fs') :
    Within (fun _ => False) fs fs' := by
  unfold Files.makeDirectory at made
  dsimp only at made
  split_ifs at made
  · exact nomatch made
  obtain ⟨place, followed, made⟩ := except_bind_eq_ok.mp made
  split at made
  · exact nomatch made
  · split_ifs at made with odd taken
    obtain rfl := Except.ok.inj made
    refine ⟨⟨fun q there => ?_, fun q c _ => ?_⟩, fun _ _ => rfl⟩
    · rw [node?_put]
      split_ifs
      · rfl
      · rfl
      · exact there
    · rw [node?_put]
      split_ifs with root same
      · rw [root]
        exact ⟨nofun, nofun⟩
      · rw [same, Option.not_isSome_iff_eq_none.mp taken]
        exact ⟨nofun, nofun⟩
      · rfl
  · exact nomatch made

theorem ensureDirectory (fs : Files) (path : String) :
    Within (fun _ => False) fs (fs.ensureDirectory path).1 := by
  unfold Files.ensureDirectory
  cases made : fs.makeDirectory path with
  | ok fs' => exact makeDirectory made
  | error e => exact .refl _ fs

theorem ensureAll (fs : Files) (path : String) (above : List String) :
    Within (fun _ => False) fs (fs.ensureAll path above).1 := by
  induction above generalizing path with
  | nil => exact ensureDirectory fs path
  | cons parent above ih =>
    unfold Files.ensureAll
    split
    · have parents := ih parent
      split
      · rename_i made
        rwa [made] at parents
      · rename_i made
        rw [made] at parents
        exact parents.trans (ensureDirectory _ path)
    · exact ensureDirectory fs path

theorem makeDirectories (fs : Files) (path : String) :
    Within (fun _ => False) fs (fs.makeDirectories path).1 :=
  ensureAll fs path _

end Within

theorem ne_root_of_not_directory (free : fs.node? p ≠ some .directory) : p ≠ [] := by
  rintro rfl
  exact free rfl

theorem node?_put_self {n : Node} (free : fs.node? p ≠ some .directory) :
    (fs.put p n).node? p = some n := by
  rw [node?_put, if_neg (ne_root_of_not_directory free), if_pos rfl]

theorem write_eq_ok {c : Content} (h : fs.write path c = .ok fs') :
    IsPlain path ∧ ∃ p, fs.locate path = .ok p ∧ fs.node? p ≠ some .directory ∧
      fs' = fs.put p (.file c) := by
  obtain ⟨p, found, h⟩ := except_bind_eq_ok.mp h
  cases there : fs.node? p with
  | none =>
    rw [there] at h
    dsimp only at h
    split_ifs at h with slash
    refine ⟨Bool.eq_false_of_not_eq_true slash, p, found, ?_, (Except.ok.inj h).symm⟩
    rw [there]
    exact nofun
  | some n =>
    rw [there] at h
    cases n with
    | directory => exact nomatch h
    | file old =>
      refine ⟨isPlain_of_file found there, p, found, ?_, (Except.ok.inj h).symm⟩
      rw [there]
      exact nofun

theorem create_eq_ok {c : Content} {f : OpenFile} (h : fs.create path c = .ok (fs', f)) :
    IsPlain path ∧ fs'.locate path = .ok f.place ∧ Within (· = f.place) fs fs' ∧
      fs'.node? f.place = some (.file c) ∧ fs'.turn f.place = f.turn := by
  obtain ⟨fs₁, written, h⟩ := except_bind_eq_ok.mp h
  obtain ⟨q, found', h⟩ := except_bind_eq_ok.mp h
  obtain ⟨rfl, rfl⟩ := Prod.mk.inj (Except.ok.inj h)
  obtain ⟨plain, p, found, free, rfl⟩ := write_eq_ok written
  have within : Within (· = p) fs (fs.put p (.file c)) := .put free
  obtain rfl := Except.ok.inj (found'.symm.trans (within.toKeeps.locate plain found))
  exact ⟨plain, found', within, node?_put_self free, rfl⟩

theorem updateOpen_within (fs : Files) (f : OpenFile) (change : Content → Content) :
    Within (· = f.place) fs (fs.updateOpen f change) := by
  unfold updateOpen
  split
  · rename_i there
    split_ifs
    · refine .put ?_
      rw [there]
      exact nofun
    · exact .refl _ fs
  · exact .refl _ fs

theorem updateOpen_eq {f : OpenFile} {c : Content} (there : fs.node? f.place = some (.file c))
    (turn : fs.turn f.place = f.turn) (change : Content → Content) :
    (fs.updateOpen f change).node? f.place = some (.file (change c)) ∧
      (fs.updateOpen f change).turn f.place = f.turn := by
  unfold updateOpen
  rw [there]
  dsimp only
  rw [if_pos turn]
  refine ⟨node?_put_self ?_, turn⟩
  rw [there]
  exact nofun

theorem replace_eq_ok {c : Content} (h : fs.replace path c = .ok fs') :
    IsPlain path ∧ ∃ p, fs.locate path = .ok p ∧ Within (· = p) fs fs' ∧
      fs'.node? p = some (.file c) := by
  obtain ⟨fs₁, written, h⟩ := except_bind_eq_ok.mp h
  obtain ⟨q, found', h⟩ := except_bind_eq_ok.mp h
  obtain rfl := Except.ok.inj h
  obtain ⟨plain, p, found, free, rfl⟩ := write_eq_ok written
  have within : Within (· = p) fs (fs.put p (.file c)) := .put free
  obtain rfl := Except.ok.inj (found'.symm.trans (within.toKeeps.locate plain found))
  exact ⟨plain, q, found, within.trans (.detach _ q), node?_put_self free⟩

theorem remove_eq_ok_iff : fs.remove path = .ok fs' ↔ ∃ p c, fs.locate path = .ok p ∧
    fs.node? p = some (.file c) ∧
      fs' = ({ fs with nodes := fs.nodes.erase p } : Files).detach p := by
  constructor
  · intro h
    obtain ⟨p, found, h⟩ := except_bind_eq_ok.mp h
    cases there : fs.node? p with
    | none => exact nomatch there ▸ h
    | some n =>
      cases n with
      | directory => exact nomatch there ▸ h
      | file c =>
        rw [there] at h
        exact ⟨p, c, found, there, (Except.ok.inj h).symm⟩
  · rintro ⟨p, c, found, there, rfl⟩
    refine except_bind_eq_ok.mpr ⟨p, found, ?_⟩
    rw [there]

theorem remove_eq_ok (h : fs.remove path = .ok fs') :
    IsPlain path ∧ ∃ p, fs.locate path = .ok p ∧ Within (· = p) fs fs' ∧
      fs'.node? p = none ∧ ∃ c, fs.node? p = some (.file c) := by
  obtain ⟨p, c, found, there, rfl⟩ := remove_eq_ok_iff.mp h
  have root : p ≠ [] := ne_root_of_not_directory (by rw [there]; exact nofun)
  have gone : ({ fs with nodes := fs.nodes.erase p } : Files).node? p = none := by
    rw [node?_erase, if_neg root, if_pos rfl]
  exact ⟨isPlain_of_file found there, p, found, (Within.erase there).trans (.detach _ p), gone, c, there⟩

/-- Where a file is found, it can be removed. -/
theorem remove_of_file {c : Content} (found : fs.locate path = .ok p)
    (there : fs.node? p = some (.file c)) : ∃ fs', fs.remove path = .ok fs' :=
  ⟨_, remove_eq_ok_iff.mpr ⟨p, c, found, there, rfl⟩⟩

theorem removeIfThere_eq_ok (h : fs.removeIfThere path = .ok fs') :
    fs' = fs ∨ fs.remove path = .ok fs' := by
  unfold removeIfThere at h
  split at h
  · exact .inl (Except.ok.inj h).symm
  · exact .inr h

theorem open?_eq_ok {n : Node} :
    fs.open? path = .ok n ↔ ∃ p, fs.locate path = .ok p ∧ fs.node? p = some n := by
  constructor
  · intro h
    obtain ⟨p, found, h⟩ := except_bind_eq_ok.mp h
    split at h
    · rename_i m there
      exact ⟨p, found, Except.ok.inj h ▸ there⟩
    · exact nomatch h
  · rintro ⟨p, found, there⟩
    refine except_bind_eq_ok.mpr ⟨p, found, ?_⟩
    rw [there]

theorem read_eq_ok {c : Content} : fs.read path = .ok c ↔
    ∃ p, fs.locate path = .ok p ∧ fs.node? p = some (.file c) := by
  rw [← open?_eq_ok]
  constructor
  · intro h
    obtain ⟨n, opened, h⟩ := except_bind_eq_ok.mp h
    cases n with
    | directory => exact nomatch h
    | file c' => exact Except.ok.inj h ▸ opened
  · exact fun opened => except_bind_eq_ok.mpr ⟨.file c, opened, rfl⟩

theorem node?_of_read {c : Content} (read : fs.read path = .ok c) (found : fs.locate path = .ok p) :
    fs.node? p = some (.file c) := by
  obtain ⟨q, found', there⟩ := read_eq_ok.mp read
  obtain rfl := Except.ok.inj (found.symm.trans found')
  exact there

/-- A file that is read elsewhere still reads the same. -/
theorem Keeps.read (h : Keeps P fs fs') {c : Content} (read : fs.read path = .ok c)
    (elsewhere : ∀ p, fs'.locate path = .ok p → ¬P p) : fs'.read path = .ok c := by
  obtain ⟨p, found, there⟩ := read_eq_ok.mp read
  have found' := h.locate (isPlain_of_file found there) found
  exact read_eq_ok.mpr ⟨p, found', (h.elsewhere p c (elsewhere p found')).mpr there⟩

end ModRemap.Files
