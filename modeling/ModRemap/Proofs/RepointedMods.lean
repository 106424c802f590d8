import Mathlib
import ModRemap.Proofs.KeptJars

/-! Where the mods of a batch are after a success: the selected ones at their outputs, in the order in
which they came. -/

namespace ModRemap.Pipeline

variable {tmp out : String} {run run' : Run} {artifacts artifacts' : List Artifact} {a : Artifact}

theorem mem_selection {i : ℕ} :
    (i, a) ∈ selection artifacts ↔ artifacts[i]? = some a ∧ a.requiresRemap = true := by
  have swapped : (i, a) ∈ artifacts.zipIdx.map (fun p => (p.2, p.1)) ↔ (a, i) ∈ artifacts.zipIdx := by
    constructor
    · intro member
      obtain ⟨p, there, same⟩ := List.mem_map.mp member
      obtain ⟨rfl, rfl⟩ := Prod.mk.inj same
      exact there
    · exact fun there => List.mem_map.mpr ⟨(a, i), there, rfl⟩
  rw [selection, List.mem_filter, swapped, List.mk_mem_zipIdx_iff_getElem?]

theorem map_selection (artifacts : List Artifact) :
    (selection artifacts).map Prod.snd = artifacts.filter Artifact.requiresRemap := by
  have all : (artifacts.zipIdx.map fun p => (p.2, p.1)).map Prod.snd = artifacts := by
    rw [List.map_map]
    exact List.zipIdx_map_fst 0 artifacts
  have chosen := List.filter_map (f := Prod.snd) (p := Artifact.requiresRemap)
    (l := artifacts.zipIdx.map fun p => (p.2, p.1))
  rw [all] at chosen
  exact chosen.symm

/-- Every mod that some job is about is at its output. -/
theorem getElem?_repoint {jobs : List Job} (i : ℕ)
    (named : ∀ job ∈ jobs, ∀ a, artifacts[job.position]? = some a →
      job.output = Path.join out a.fileName) :
    (repoint artifacts jobs)[i]? = artifacts[i]?.map fun a =>
      if ∃ job ∈ jobs, job.position = i then a.setPath (Path.join out a.fileName) else a := by
  induction jobs generalizing artifacts with
  | nil =>
    simp only [List.not_mem_nil, false_and, exists_false, if_false, Option.map_id']
    rfl
  | cons job jobs ih =>
    obtain ⟨own, others⟩ := List.forall_mem_cons.mp named
    have first (k : ℕ) : (artifacts.modify job.position fun a => a.setPath job.output)[k]? =
        artifacts[k]?.map fun a => if job.position = k then a.setPath job.output else a :=
      List.getElem?_modify _ _ _ _
    -- A mod that has been moved has the file name that it had.
    have named' : ∀ job' ∈ jobs, ∀ a,
        (artifacts.modify job.position fun a => a.setPath job.output)[job'.position]? = some a →
          job'.output = Path.join out a.fileName := by
      intro job' member a found
      rw [first] at found
      obtain ⟨before, there, rfl⟩ := Option.map_eq_some_iff.mp found
      have output := others job' member before there
      split_ifs
      · exact output
      · exact output
    have rest := ih named'
    rw [first, Option.map_map] at rest
    refine rest.trans ?_
    cases found : artifacts[i]? with
    | none => rfl
    | some a =>
      refine congrArg some ?_
      dsimp only [Function.comp_apply]
      by_cases here : job.position = i
      · have output := own a (here ▸ found)
        have among : ∃ job' ∈ job :: jobs, job'.position = i := ⟨job, List.mem_cons_self, here⟩
        rw [if_pos here, if_pos among, output]
        split_ifs
        · rfl
        · rfl
      · have same : (∃ job' ∈ job :: jobs, job'.position = i) ↔ ∃ job' ∈ jobs, job'.position = i := by
          rw [List.exists_mem_cons_iff, or_iff_right here]
        rw [if_neg here]
        simp only [same]

/-- A mod after a success. -/
def remapped (index : Option MappingIndex) (out : String) (a : Artifact) : Artifact :=
  if index.isSome && a.requiresRemap then a.setPath (Path.join out a.fileName) else a

theorem repoint_eq {jobs : List Job} (follow : List.Forall₂ (Follows out) (selection artifacts) jobs)
    (ix : MappingIndex) : repoint artifacts jobs = artifacts.map (remapped (some ix) out) := by
  have named : ∀ job ∈ jobs, ∀ a, artifacts[job.position]? = some a →
      job.output = Path.join out a.fileName := by
    intro job member a found
    obtain ⟨q, selects, follows⟩ := exists_of_mem_right follow member
    obtain ⟨there, _⟩ := mem_selection.mp selects
    rw [follows.position, there] at found
    exact Option.some.inj found ▸ follows.output
  refine List.ext_getElem? fun i => ?_
  rw [getElem?_repoint i named, List.getElem?_map]
  cases found : artifacts[i]? with
  | none => rfl
  | some a =>
    have selected : (∃ job ∈ jobs, job.position = i) ↔ a.requiresRemap = true := by
      constructor
      · rintro ⟨job, member, rfl⟩
        obtain ⟨q, selects, follows⟩ := exists_of_mem_right follow member
        obtain ⟨there, requires⟩ := mem_selection.mp selects
        rw [follows.position, there] at found
        exact Option.some.inj found ▸ requires
      · intro requires
        obtain ⟨job, member, follows⟩ :=
          exists_of_mem_left follow (mem_selection.mpr ⟨found, requires⟩)
        exact ⟨job, member, follows.position⟩
    simp only [Option.map_some, remapped, selected, Option.isSome_some, Bool.true_and]

theorem artifacts_of_remap {index : Option MappingIndex} {classpath : List String} {fs fs' : Files}
    {n : ℕ} (done : remap index classpath tmp out artifacts fs = (fs', artifacts', .ok n)) :
    artifacts' = artifacts.map (remapped index out) := by
  have untouched (same : ∀ a ∈ artifacts, remapped index out a = a) :
      artifacts.map (remapped index out) = artifacts :=
    (List.map_congr_left same).trans (List.map_id artifacts)
  unfold remap at done
  split at done
  · rw [untouched fun _ _ => rfl]
    exact (Prod.mk.inj (Prod.mk.inj done).2).1.symm
  · rename_i none
    rw [untouched fun a member => ?_]
    · exact (Prod.mk.inj (Prod.mk.inj done).2).1.symm
    · have unselected : a ∉ artifacts.filter Artifact.requiresRemap := by
        rw [← map_selection, none]
        exact List.not_mem_nil
      have requires : a.requiresRemap = false :=
        Bool.eq_false_of_not_eq_true fun requires => unselected (List.mem_filter.mpr ⟨member, requires⟩)
      rw [remapped, requires, Bool.and_false, if_neg Bool.false_ne_true]
  split at done
  · exact nomatch (Prod.mk.inj (Prod.mk.inj done).2).2
  rename_i ix _ _ remapper _ _
  rcases result : (phases ix tmp out (selection artifacts)).run { files := fs, remapper } with
    ⟨e | u, last⟩
  · rw [result] at done
    exact nomatch (Prod.mk.inj (Prod.mk.inj done).2).2
  rw [result] at done
  obtain ⟨staged, stages, jobs, _⟩ := exists_output result
  rw [← repoint_eq (follows_of_all stages) ix, ← jobs]
  exact (Prod.mk.inj (Prod.mk.inj done).2).1.symm

end ModRemap.Pipeline
