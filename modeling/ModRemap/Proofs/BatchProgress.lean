import Mathlib
import ModRemap.Proofs.BatchRoom

/-! A batch that has room is remapped, if the jars of its mods can be. At every stage the mods that are
still to be staged have places left for their copies, though maybe not those that were meant for them
first. -/

namespace ModRemap.Pipeline

open Artifact (Slot)

variable {start staged made final : Files} {tmp out : String} {mods : List Artifact} {a : Artifact}
  {selected : List (ℕ × Artifact)}

theorem file_of_removeIfThere {fs fs' : Files} {path : String} {p : Place} {c : Content}
    (h : fs.removeIfThere path = .ok fs') (there : fs'.node? p = some (.file c)) :
    fs.node? p = some (.file c) := by
  rcases Files.removeIfThere_eq_ok h with rfl | removed
  · exact there
  · obtain ⟨_, q, _, within, gone, _⟩ := Files.remove_eq_ok removed
    have other : p ≠ q := fun here => nomatch (here ▸ there).symm.trans gone
    exact (within.elsewhere p c other).mp there

/-- What is left of the room while mods are staged. -/
structure HasRoom (start staged made : Files) (tmp : String) (fs : Files) (todo : List Artifact) :
    Prop where
  known : fs.directories = start.directories ∨ fs.directories = staged.directories
  clear : ∀ p ∈ made.directories, ∀ c, fs.node? p ≠ some (.file c)
  places : ∃ places, List.Forall₂ (Slot staged made.directories tmp) (todo.filter Artifact.isInMemory)
    places ∧ places.Nodup ∧ ∀ p ∈ places, ∀ c, fs.node? p ≠ some (.file c)

theorem Room.hasRoom (room : Room start staged made tmp out mods) :
    HasRoom start staged made tmp start mods :=
  ⟨.inl rfl, room.clear, room.places⟩

/-- A place that is taken is given up by whom it was meant for, who gets the place of the other. -/
theorem slots_of_taken {full : Set Place} {todo : List Artifact} {places : List Place} {p q : Place}
    (slots : List.Forall₂ (Slot staged full tmp) todo places) (distinct : (p :: places).Nodup)
    (swap : ∀ b, Slot staged full tmp b q → Slot staged full tmp b p) :
    ∃ places', List.Forall₂ (Slot staged full tmp) todo places' ∧ places'.Nodup ∧
      ∀ x ∈ places', (x = p ∨ x ∈ places) ∧ x ≠ q := by
  obtain ⟨fresh, distinct⟩ := List.nodup_cons.mp distinct
  refine ⟨places.map fun x => if x = q then p else x, ?_, ?_, fun x member => ?_⟩
  · rw [List.forall₂_map_right_iff]
    refine slots.imp fun b x slot => ?_
    split_ifs with taken
    · exact swap b (taken ▸ slot)
    · exact slot
  · refine distinct.map_on fun x member y member' same => ?_
    split_ifs at same with taken taken' taken'
    · rw [taken, taken']
    · exact absurd (same ▸ member') fresh
    · exact absurd (same ▸ member) fresh
    · exact same
  · obtain ⟨y, old, rfl⟩ := List.mem_map.mp member
    split_ifs with taken
    · exact ⟨.inl rfl, fun same => fresh (by rw [same, ← taken]; exact old)⟩
    · exact ⟨.inr old, taken⟩

/-- A mod is copied if it has to be, and leaves room for the others. -/
theorem placed_of_hasRoom {fs : Files} {todo : List Artifact}
    (room : Room start staged made tmp out mods) (member : a ∈ mods)
    (h : HasRoom start staged made tmp fs (a :: todo)) : ∃ files input temporary,
      Placed tmp a fs files input temporary ∧ HasRoom start staged made tmp files todo := by
  obtain ⟨known, clear, places, slots, distinct, free⟩ := h
  cases source : a.source with
  | path path =>
    have path' : a.isInMemory = false := by
      rw [Artifact.isInMemory, Artifact.path?, source]
      rfl
    rw [List.filter_cons_of_neg (by rw [path']; exact Bool.false_ne_true)] at slots
    exact ⟨fs, path, false, .path source, known, clear, places, slots, distinct, free⟩
  | memory c =>
    have memory : a.isInMemory = true := by
      rw [Artifact.isInMemory, Artifact.path?, source]
      rfl
    rw [List.filter_cons_of_pos memory] at slots
    obtain _ | @⟨_, p, _, places, slot, slots⟩ := slots
    obtain ⟨fs₀, done, same⟩ := room.copies ⟨a, member, memory⟩
    rw [← same] at known
    obtain ⟨fs₁, done₁, same₁⟩ := Files.makeDirectories_again done known fun p inside =>
      clear p (room.more (same ▸ inside))
    obtain ⟨files, target, q, copied, same₂, found, outside, swap⟩ := Artifact.copy_of_slot slot done₁
      (same₁.trans same) room.more (free p List.mem_cons_self) source
    obtain ⟨_, q', _, found', within, _⟩ := Artifact.copyToTemporary_eq_ok copied
    obtain rfl := Except.ok.inj (found.symm.trans found')
    obtain ⟨places', slots', distinct', others⟩ := slots_of_taken slots distinct swap
    refine ⟨files, target, true, .memory source copied, .inr same₂, fun r inside c there => ?_, places',
      slots', distinct', fun x member' c there => ?_⟩
    · have other : r ≠ q := fun here => outside (here ▸ inside)
      exact clear r inside c ((within.elsewhere r c other).mp there)
    · obtain ⟨before, other⟩ := others x member'
      exact free x (List.mem_cons.mpr before) c ((within.elsewhere x c other).mp there)

/-- The place of an output is cleared, which leaves all room that there was. -/
theorem cleared_of_hasRoom {fs : Files} {todo : List Artifact}
    (room : Room start staged made tmp out mods) (member : a ∈ mods)
    (h : HasRoom start staged made tmp fs todo) : ∃ cleared,
      fs.removeIfThere (Path.join out a.fileName) = .ok cleared ∧
        HasRoom start staged made tmp cleared todo := by
  obtain ⟨known, clear, places, slots, distinct, free⟩ := h
  have less : start.directories ⊆ staged.directories := by
    rw [room.still]
    exact Set.subset_union_left
  have more : fs.directories ⊆ made.directories := by
    rcases known with same | same
    · exact same.le.trans (less.trans room.more)
    · exact same.le.trans room.more
  obtain ⟨_, p, found, outside⟩ := room.outputs a member
  obtain ⟨cleared, removed⟩ := Files.removeIfThere_of_more (isPlain_output out a) more clear found outside
  refine ⟨cleared, removed, ?_, fun q inside c there => ?_, places, slots, distinct,
    fun q member' c there => ?_⟩
  · rwa [Files.directories_removeIfThere removed]
  · exact clear q inside c (file_of_removeIfThere removed there)
  · exact free q member' c (file_of_removeIfThere removed there)

/-- The jar of a mod can be read, and so can the headers of its classes. -/
def Readable (start : Files) (a : Artifact) : Prop :=
  ∃ c listed classes hs, a.jar start = .ok c ∧ c.list = .ok listed ∧
    Remapper.Registers listed classes hs

theorem stages_of_hasRoom {run : Run} {todo : List (ℕ × Artifact)}
    (room : Room start staged made tmp out (selected.map Prod.snd))
    (members : ∀ q ∈ todo, q ∈ selected) (settled : Settled start out selected run)
    (since : Files.Keeps (fun _ => True) start run.files)
    (h : HasRoom start staged made tmp run.files (todo.map Prod.snd))
    (readable : ∀ q ∈ todo, Readable start q.2)
    (apart : ∀ files, Apart files
      ((todo.forM fun p => stage tmp out p.1 p.2).run run).2.jobs) :
    ∃ run', (todo.forM fun p => stage tmp out p.1 p.2).run run = (.ok (), run') ∧
      HasRoom start staged made tmp run'.files [] := by
  induction todo generalizing run with
  | nil => exact ⟨run, rfl, h⟩
  | cons q todo ih =>
    obtain ⟨first, others⟩ := List.forall_mem_cons.mp members
    obtain ⟨own, readable'⟩ := List.forall_mem_cons.mp readable
    have member : q.2 ∈ selected.map Prod.snd := List.mem_map_of_mem first
    obtain ⟨files, input, temporary, placed, h₁⟩ := placed_of_hasRoom room member h
    obtain ⟨cleared, removed, h₂⟩ := cleared_of_hasRoom room member h₁
    obtain ⟨job, result, mid, staged, placed', removed', rfl, jobs, succeeds⟩ :=
      stage_of_placed q.1 placed removed
    have after := (does_stage start out selected tmp first).always settled
    rw [staged] at after
    obtain ⟨grows, settled'⟩ := after
    have rest := (Does.forM fun p member => does_stage start out selected tmp
      (others p member)).always settled'
    have whole := run_bind (stage tmp out q.1 q.2)
      (fun _ => todo.forM fun p => stage tmp out p.1 p.2) run
    rw [staged] at whole
    change ∀ files, Apart files (((stage tmp out q.1 q.2) >>= fun _ =>
      todo.forM fun p => stage tmp out p.1 p.2).run run).2.jobs at apart
    show ∃ run', (stage tmp out q.1 q.2 >>= fun _ =>
      todo.forM fun p => stage tmp out p.1 p.2).run run = (.ok (), run') ∧ _
    rw [whole] at apart ⊢
    -- Whether the stage succeeds or not, its job is known from here on.
    have apart' : ∀ files, Apart files mid.jobs := by
      intro files
      cases result with
      | error e => exact apart files
      | ok u => exact (apart files).mono rest.1.jobs
    have last : job ∈ mid.jobs := by
      rw [jobs]
      exact List.mem_append_right _ List.mem_cons_self
    obtain ⟨c, listed, classes, hs, jar, content, registers⟩ := own
    have found := jar_of_placed settled' placed' removed' (since.trans grows.files) (.refl _ _) last
      (apart' _) jar
    obtain rfl := succeeds listed classes hs (Jar.list_eq_ok.mpr ⟨c, found, content⟩) registers
    exact ih others settled' (since.trans grows.files) h₂ readable' apart

end ModRemap.Pipeline
