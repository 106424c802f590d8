import Mathlib
import ModRemap.Proofs.MadeDirectories
import ModRemap.Proofs.StagedJobs

/-! Copies of jars. The file that a copy goes to is emptied before the jar is opened. So a jar that is
copied onto itself is lost, and no other one is. -/

namespace ModRemap.Artifact

open Files

variable {a : Artifact} {fs fs' : Files} {directory target : String} {p : Place} {c : Content}
  {temporary : Bool}

/-! ### One copy -/

/-- What a copy takes from a source when it goes to a place: what was there before, or nothing if the
source is at that place itself. A path is followed through the directories that have been made. -/
inductive Supplies (fs fs' : Files) (p : Place) : ArtifactSource → Content → Prop where
  | memory {jar : Content} : Supplies fs fs' p (.memory jar) jar
  | apart {path : String} {q : Place} {c : Content} (found : fs'.locate path = .ok q) (other : q ≠ p)
      (there : fs.node? q = some (.file c)) : Supplies fs fs' p (.path path) c
  | onto {path : String} (found : fs'.locate path = .ok p) : Supplies fs fs' p (.path path) (.data [])

/-- What a copy leaves behind. -/
structure CopiedTo (a : Artifact) (fs fs' : Files) (target : String) (p : Place) (c : Content) :
    Prop where
  located : fs'.locate target = .ok p
  keeps : Keeps (· = p) fs fs'
  supplied : Supplies fs fs' p a.source c
  there : fs'.node? p = some (.file c)

theorem copied_of_copy (h : a.copy temporary fs directory = (fs', .ok target)) :
    ∃ p c, a.CopiedTo fs fs' target p c ∧ (temporary = true → ∀ c, fs.node? p ≠ some (.file c)) := by
  obtain ⟨fs₁, prepared, filled⟩ := copy_eq_ok.mp h
  obtain ⟨plain, p, found, emptied, empty⟩ := prepare_place prepared
  obtain ⟨c, jar, written⟩ := fill_eq_ok_iff.mp filled
  obtain ⟨_, q, found', free, rfl⟩ := write_eq_ok written
  obtain rfl := Except.ok.inj (found.symm.trans found')
  have puts : Within (· = p) fs₁ (fs₁.put p (.file c)) := .put free
  refine ⟨p, c, ⟨puts.toKeeps.locate plain found, (emptied.trans puts).toKeeps, ?_,
    node?_put_self free⟩, fun temp => ?_⟩
  · unfold Artifact.jar at jar
    cases source : a.source with
    | memory jar' =>
      rw [source] at jar
      obtain rfl := Except.ok.inj jar
      exact .memory
    | path path =>
      rw [source] at jar
      obtain ⟨q, found', there⟩ := read_eq_ok.mp jar
      have located := puts.toKeeps.locate (isPlain_of_file found' there) found'
      by_cases same : q = p
      · subst same
        obtain rfl : Content.data [] = c := Node.file.inj (Option.some.inj (empty.symm.trans there))
        exact .onto located
      · exact .apart located same ((emptied.elsewhere q c same).mp there)
  · subst temp
    rw [copyName_true] at prepared
    obtain ⟨q, found', _, free', _⟩ := prepare_fresh prepared
    obtain rfl := Except.ok.inj (found.symm.trans found')
    exact free'

namespace CopiedTo

theorem read (h : a.CopiedTo fs fs' target p c) : fs'.read target = .ok c :=
  read_eq_ok.mpr ⟨p, h.located, h.there⟩

/-- The source holds what the copy holds. -/
theorem jar_after (h : a.CopiedTo fs fs' target p c) : a.jar fs' = .ok c := by
  have supplied := h.supplied
  unfold Artifact.jar
  cases source : a.source with
  | memory jar =>
    rw [source] at supplied
    cases supplied with
    | memory => rfl
  | path path =>
    rw [source] at supplied
    cases supplied with
    | apart found other there => exact read_eq_ok.mpr ⟨_, found, (h.keeps.elsewhere _ c other).mpr there⟩
    | onto found => exact read_eq_ok.mpr ⟨p, found, h.there⟩

/-- A jar that could be read before is copied as it was, unless it is not empty and the copy went to its
own place. -/
theorem eq_iff (h : a.CopiedTo fs fs' target p c) {jar : Content} (before : a.jar fs = .ok jar) :
    c = jar ↔ jar = .data [] ∨ ∀ path, a.path? = some path → fs'.Apart path target := by
  have supplied := h.supplied
  unfold Artifact.jar at before
  unfold Artifact.path?
  cases source : a.source with
  | memory jar' =>
    rw [source] at before supplied
    cases supplied with
    | memory => exact ⟨fun _ => .inr nofun, fun _ => Except.ok.inj before⟩
  | path path =>
    rw [source] at before supplied
    obtain ⟨q, found, there⟩ := read_eq_ok.mp before
    have located := h.keeps.locate (isPlain_of_file found there) found
    cases supplied with
    | apart found' other there' =>
      obtain rfl := Except.ok.inj (located.symm.trans found')
      obtain rfl := Node.file.inj (Option.some.inj (there.symm.trans there'))
      refine ⟨fun _ => .inr fun _ same => ?_, fun _ => rfl⟩
      obtain rfl := Option.some.inj same
      exact apart_of_locate found' h.located other
    | onto found' =>
      exact ⟨fun same => .inl same.symm, fun told => told.elim Eq.symm fun apart =>
        absurd h.located (apart path rfl p found')⟩

/-- Nothing that could be read before is at the place of a new file. -/
theorem eq_of_free (h : a.CopiedTo fs fs' target p c) (free : ∀ c, fs.node? p ≠ some (.file c))
    {jar : Content} (before : a.jar fs = .ok jar) : c = jar := by
  refine (h.eq_iff before).mpr (.inr fun path named q found there => ?_)
  obtain rfl := Except.ok.inj (h.located.symm.trans there)
  unfold Artifact.jar at before
  unfold Artifact.path? at named
  cases source : a.source with
  | memory jar' =>
    rw [source] at named
    exact nomatch named
  | path path' =>
    rw [source] at before named
    obtain rfl := Option.some.inj named
    obtain ⟨q, found', there'⟩ := read_eq_ok.mp before
    have located := h.keeps.locate (isPlain_of_file found' there') found'
    obtain rfl := Except.ok.inj (found.symm.trans located)
    exact free jar there'

end CopiedTo

/-! ### The same copy again -/

/-- A jar that is copied under its own file name can be copied there once more, from there. It comes out
empty. -/
theorem copy_again (h : a.copy false fs directory = (fs', .ok target)) :
    ∃ fs'', (a.setPath target).copy false fs' directory = (fs'', .ok target) ∧
      fs''.read target = .ok (.data []) := by
  obtain ⟨fs₁, prepared, filled⟩ := copy_eq_ok.mp h
  obtain ⟨fs₂, name, made, named, whole, written⟩ := prepare_eq_ok.mp prepared
  obtain ⟨plain, p, found, _, empty⟩ := prepare_place prepared
  obtain ⟨_, _, written'⟩ := fill_eq_ok_iff.mp filled
  rw [copyName_false] at named
  obtain rfl : a.fileName = name := Except.ok.inj named
  have named' : (a.setPath target).copyName false directory fs' = .ok a.fileName := by
    rw [copyName_false]
    rfl
  have same := directories_write written'
  have there : fs'.isDirectory directory = true :=
    isDirectory_mono (same.trans (directories_write written)).ge (makeDirectories_eq_ok made).1
  have met : fs'.locate target = .ok p := (locate_of_directories plain same).mpr found
  have free : p ∉ fs'.directories := same ▸ not_mem_directories_of_file empty
  -- The file is emptied, read, and written as it was read.
  obtain ⟨emptied, empties⟩ : ∃ fs, fs'.write target (.data []) = .ok fs :=
    ⟨_, write_of_free plain met free⟩
  have prepared' : prepare fs' directory ((a.setPath target).copyName false directory) =
      (emptied, .ok target) :=
    prepare_eq_ok.mpr ⟨fs', a.fileName, makeDirectories_of_isDirectory there, named', whole, empties⟩
  obtain ⟨_, q, found', _, empty'⟩ := prepare_place prepared'
  obtain ⟨fs'', fills⟩ : ∃ fs, emptied.write target (.data []) = .ok fs :=
    ⟨_, write_of_free plain found' (not_mem_directories_of_file empty')⟩
  have again : (a.setPath target).copy false fs' directory = (fs'', .ok target) :=
    copy_eq_ok.mpr ⟨emptied, prepared', fill_eq_ok_iff.mpr ⟨_, read_of_write empties, fills⟩⟩
  exact ⟨fs'', again, read_of_write fills⟩

/-- After a copy has been made, it and the source hold the same. That is what the source held, exactly if
it held nothing or is at another place; under a new name it always is. A mod that is given the path of its
copy and copied once more is left with an empty jar. Where a copy under a new name cannot be made, no file
has changed or come to be there. -/
theorem jar_of_copy {result : Except FileError String}
    (done : a.copy temporary fs directory = (fs', result)) :
    match result with
    | .ok target => ∃ p c, a.CopiedTo fs fs' target p c ∧ fs'.read target = .ok c ∧ a.jar fs' = .ok c ∧
        (∀ jar, a.jar fs = .ok jar →
          (c = jar ↔ jar = .data [] ∨ ∀ path, a.path? = some path → fs'.Apart path target)) ∧
        (temporary = true → ∀ jar, a.jar fs = .ok jar → c = jar) ∧
        (temporary = false → ∃ fs'', (a.setPath target).copy false fs' directory = (fs'', .ok target) ∧
          fs''.read target = .ok (.data []))
    | .error _ => temporary = true → Keeps (fun _ => False) fs fs' := by
  cases result with
  | error e =>
    rintro rfl
    rw [copy_true] at done
    exact copyToTemporary_error done
  | ok target =>
    obtain ⟨p, c, copied, free⟩ := copied_of_copy done
    refine ⟨p, c, copied, copied.read, copied.jar_after, fun jar => copied.eq_iff, fun temp jar => ?_,
      fun own => ?_⟩
    · exact copied.eq_of_free (free temp)
    · subst own
      exact copy_again done

/-- The jar is somewhere else. -/
theorem jar_of_copy_elsewhere :
    let a : Artifact := { metadata := { id := "a", version := "1" }, source := .path "mods/a.jar" }
    let fs : Files := { nodes := Dict.ofList [(["mods"], .directory),
      (["mods", "a.jar"], .file (.data [7]))] }
    let copied := a.copy false fs "out"
    copied.2 = .ok "out/a-1.jar" ∧ copied.1.read "out/a-1.jar" = .ok (.data [7]) ∧
      a.jar copied.1 = .ok (.data [7]) := by
  intro a fs copied
  have done : copied.2 = .ok "out/a-1.jar" := by decide +kernel
  have before : a.jar fs = .ok (.data [7]) := by decide +kernel
  have split : a.copy false fs "out" = (copied.1, .ok "out/a-1.jar") := Prod.ext rfl done
  obtain ⟨p, c, _, read, jar, same, -⟩ := jar_of_copy split
  have apart : ∀ path, a.path? = some path → copied.1.Apart path "out/a-1.jar" := by
    intro path named
    obtain rfl : "mods/a.jar" = path := Option.some.inj named
    have input : copied.1.locate "mods/a.jar" = .ok ["mods", "a.jar"] := by decide +kernel
    have output : copied.1.locate "out/a-1.jar" = .ok ["out", "a-1.jar"] := by decide +kernel
    exact apart_of_locate input output (by decide)
  obtain rfl := (same _ before).mpr (.inr apart)
  exact ⟨done, read, jar⟩

/-- A mod that is copied, given the path of the copy, and copied again. -/
theorem jar_lost_of_copy :
    let a : Artifact :=
      { metadata := { id := "a", version := "1" }, source := .memory (.data (bytesOf "x")) }
    let once := a.copy false ∅ "d"
    let twice := (a.setPath "d/a-1.jar").copy false once.1 "d"
    once.2 = .ok "d/a-1.jar" ∧ once.1.read "d/a-1.jar" = .ok (.data (bytesOf "x")) ∧
      twice.2 = .ok "d/a-1.jar" ∧ twice.1.read "d/a-1.jar" = .ok (.data []) := by
  intro a once twice
  exact ⟨by decide +kernel, by decide +kernel, by decide +kernel, by decide +kernel⟩

end ModRemap.Artifact
