import Mathlib
import ModRemap.Proofs.JarRebuild
import ModRemap.Remap.Remapper

/-! Jars as files. Entries are collected beside the file of a jar, which stays the same until the jar
is closed. -/

namespace ModRemap

namespace Jar

theorem fault_eq_ok {α : Type} {x : Except ArchiveFault α} {a : α} : fault x = .ok a ↔ x = .ok a := by
  cases x with
  | error e => exact ⟨nofun, nofun⟩
  | ok b => rw [fault, Except.ok.injEq, Except.ok.injEq]

/-- Nothing is done when nothing is replaced; else the jar becomes another file. -/
theorem overwrite_eq_ok {fs fs' : Files} {path : String} {replacements : Dict String Bytes}
    (h : overwrite fs path replacements = .ok fs') :
    replacements.size = 0 ∧ fs' = fs ∨ ∃ listed kept, list fs path = .ok listed ∧
      carry (named replacements).contains listed = .ok kept ∧
      fs.replace path (.archive (kept ++ (named replacements).entries.map fun p => ⟨p.1, p.2⟩)) =
        .ok fs' := by
  rw [overwrite_eq, rebuilt] at h
  split_ifs at h with none
  · exact .inl ⟨none, (Except.ok.inj h).symm⟩
  · right
    obtain ⟨listed, read, h⟩ := except_bind_eq_ok.mp h
    obtain ⟨kept, carried, h⟩ := except_bind_eq_ok.mp h
    exact ⟨listed, kept, read, carried, file_eq_ok.mp h⟩

end Jar

namespace OutputJar

variable {fs fs' : Files} {path : String} {jar jar' : OutputJar}

theorem create_eq_ok (h : create fs path = (fs', .ok jar)) :
    jar.path = path ∧ jar.entries = [] ∧ jar.flushed = [] ∧
      fs'.locate path = .ok jar.file.place ∧ Files.Within (· = jar.file.place) fs fs' ∧
      fs'.node? jar.file.place = some (.file (.begun [])) ∧
      fs'.turn jar.file.place = jar.file.turn := by
  have made := Files.Within.makeDirectories fs (Path.parent path)
  unfold create at h
  split at h
  · exact nomatch (Prod.mk.inj h).2
  · rename_i fs₁ done
    rw [done] at made
    split at h
    · exact nomatch (Prod.mk.inj h).2
    · rename_i fs₂ f created
      obtain ⟨rfl, new⟩ := Prod.mk.inj h
      obtain rfl := Except.ok.inj new
      obtain ⟨_, found, within, there, turn⟩ := Files.create_eq_ok created
      exact ⟨rfl, rfl, rfl, found, (made.mono nofun).trans within, there, turn⟩

theorem create_error {e : JarError} (h : create fs path = (fs', .error e)) :
    Files.Within (fun _ => False) fs fs' := by
  have made := Files.Within.makeDirectories fs (Path.parent path)
  unfold create at h
  split at h
  · rename_i failed
    obtain ⟨rfl, _⟩ := Prod.mk.inj h
    rwa [failed] at made
  · rename_i done
    rw [done] at made
    split at h
    · obtain ⟨rfl, _⟩ := Prod.mk.inj h
      exact made
    · exact nomatch (Prod.mk.inj h).2

/-- The same jar with more entries collected for it. -/
def Collects (jar jar' : OutputJar) : Prop := ∃ entries, jar' = { jar with entries }

theorem Collects.refl (jar : OutputJar) : jar.Collects jar := ⟨jar.entries, rfl⟩

theorem Collects.trans {jar'' : OutputJar} (h : jar.Collects jar') (h' : jar'.Collects jar'') :
    jar.Collects jar'' := by
  obtain ⟨entries, rfl⟩ := h
  obtain ⟨entries', rfl⟩ := h'
  exact ⟨entries', rfl⟩

theorem collects_write (jar : OutputJar) (e : Entry) : jar.Collects (jar.write e) := by
  unfold write
  split_ifs
  · exact .refl jar
  · exact ⟨_, rfl⟩

theorem collects_copyListed (jar : OutputJar) (count : ℕ) (listed : List Listed) :
    jar.Collects (jar.copyListed count listed).1 := by
  induction listed generalizing jar count with
  | nil => exact .refl jar
  | cons e listed ih =>
    unfold copyListed
    split
    · exact .refl jar
    · exact ih jar count
    · exact (jar.collects_write _).trans (ih _ _)

theorem collects_copyResources (jar : OutputJar) (fs : Files) (input : String) :
    jar.Collects (jar.copyResources fs input).1 := by
  unfold copyResources
  split
  · exact .refl jar
  · exact collects_copyListed jar 0 _

end OutputJar

namespace Remapper

open OutputJar

theorem collects_applyAll (r : Resolver) (jar : OutputJar) (classes : List Entry) :
    jar.Collects (applyAll r jar classes).1 := by
  induction classes generalizing jar with
  | nil => exact .refl jar
  | cons e classes ih =>
    unfold applyAll
    split
    · exact .refl jar
    · exact (jar.collects_write _).trans (ih _)

theorem collects_apply (m : Remapper) (tag : ℕ) (jar : OutputJar) :
    jar.Collects (m.apply tag jar).1 := by
  unfold apply
  split
  · exact .refl jar
  · exact collects_applyAll m.resolver jar _

end Remapper

end ModRemap
