import Mathlib
import ModRemap.Proofs.TemporaryFiles
import ModRemap.Remap.Pipeline

/-! Rules for the steps of a run. A step is judged by what holds after it, also where it fails,
because what it has done by then stays done. -/

namespace ModRemap.Pipeline

variable {α β : Type} {fail pre : Run → Prop}

/-- Directories and jobs are added, and none is dropped. -/
structure Run.Grows (run run' : Run) : Prop where
  files : Files.Keeps (fun _ => True) run.files run'.files
  jobs : ∀ job ∈ run.jobs, job ∈ run'.jobs

namespace Run.Grows

theorem refl (run : Run) : run.Grows run := ⟨.refl _ _, fun _ h => h⟩

theorem trans {run run' run'' : Run} (h : run.Grows run') (h' : run'.Grows run'') :
    run.Grows run'' :=
  ⟨h.files.trans h'.files, fun job there => h'.jobs job (h.jobs job there)⟩

end Run.Grows

/-- What holds after `x`: the run has grown, and `post` holds where `x` succeeds, else `fail`. -/
def Does (fail pre : Run → Prop) (x : Batch α) (post : α → Run → Prop) : Prop :=
  ∀ run, pre run → run.Grows (x.run run).2 ∧
    match (x.run run).1 with
    | .ok a => post a (x.run run).2
    | .error _ => fail (x.run run).2

/-- A growing run does not lose this. -/
def Stable (F : Run → Prop) : Prop := ∀ run run', run.Grows run' → F run → F run'

theorem run_bind (x : Batch α) (f : α → Batch β) (run : Run) :
    (x >>= f).run run = match x.run run with
      | (.ok a, run') => (f a).run run'
      | (.error e, run') => (.error e, run') := by
  show ExceptT.bindCont f (x.run run).1 (x.run run).2 = _
  rcases x.run run with ⟨e | a, run'⟩
  · rfl
  · rfl

theorem run_onFiles {ε : Type} (wrap : ε → RemapError) (act : Files → Files × Except ε α)
    (run : Run) : (onFiles wrap act).run run =
      ((act run.files).2.mapError wrap, { run with files := (act run.files).1 }) := by
  rw [onFiles, ExceptT.run_mk]
  rcases act run.files with ⟨files, e | a⟩
  · rfl
  · rfl

namespace Does

/-- What holds after a success. -/
theorem of_ok {x : Batch α} {post : α → Run → Prop} (h : Does fail pre x post) {run run' : Run}
    {a : α} (before : pre run) (done : x.run run = (.ok a, run')) : run.Grows run' ∧ post a run' := by
  have after := h run before
  rw [done] at after
  exact after

/-- What holds after a success and after a failure. -/
theorem always {x : Batch α} (h : Does fail pre x fun _ => fail) {run : Run} (before : pre run) :
    run.Grows (x.run run).2 ∧ fail (x.run run).2 := by
  obtain ⟨grows, after⟩ := h run before
  rcases result : (x.run run).1 with e | a
  · rw [result] at after
    exact ⟨grows, after⟩
  · rw [result] at after
    exact ⟨grows, after⟩

theorem bind {x : Batch α} {f : α → Batch β} {M : α → Run → Prop} {post : β → Run → Prop}
    (hx : Does fail pre x M) (hf : ∀ a, Does fail (M a) (f a) post) :
    Does fail pre (x >>= f) post := by
  intro run before
  obtain ⟨grows, after⟩ := hx run before
  rw [run_bind]
  rcases result : x.run run with ⟨e | a, run'⟩
  · rw [result] at grows after
    exact ⟨grows, after⟩
  · rw [result] at grows after
    obtain ⟨grows', after'⟩ := hf a run' after
    exact ⟨grows.trans grows', after'⟩

theorem pure {a : α} {post : α → Run → Prop} (h : ∀ run, pre run → post a run) :
    Does fail pre (pure a) post :=
  fun run before => ⟨.refl run, h run before⟩

theorem throw {e : RemapError} {post : α → Run → Prop} (h : ∀ run, pre run → fail run) :
    Does fail pre (throw e) post :=
  fun run before => ⟨.refl run, h run before⟩

theorem mono {pre' : Run → Prop} {x : Batch α} {post post' : α → Run → Prop}
    (h : Does fail pre x post) (before : ∀ run, pre' run → pre run)
    (after : ∀ a run, post a run → post' a run) : Does fail pre' x post' := by
  intro run hr
  obtain ⟨grows, done⟩ := h run (before run hr)
  refine ⟨grows, ?_⟩
  rcases result : (x.run run).1 with e | a
  · rwa [result] at done
  · rw [result] at done
    exact after a _ done

theorem frame {F : Run → Prop} (stable : Stable F) {x : Batch α} {post : α → Run → Prop}
    (h : Does fail pre x post) :
    Does fail (fun run => pre run ∧ F run) x fun a run => post a run ∧ F run := by
  rintro run ⟨before, held⟩
  obtain ⟨grows, done⟩ := h run before
  refine ⟨grows, ?_⟩
  rcases result : (x.run run).1 with e | a
  · rwa [result] at done
  · rw [result] at done
    exact ⟨done, stable run _ grows held⟩

/-- What each item yields is kept while the next ones are dealt with. -/
theorem mapM {as : List α} {f : α → Batch β} {I : Run → Prop} {P : α → β → Run → Prop}
    (each : ∀ a ∈ as, Does fail I (f a) fun b run => I run ∧ P a b run)
    (stable : ∀ a b, Stable (P a b)) :
    Does fail I (as.mapM f) fun bs run => I run ∧ List.Forall₂ (fun a b => P a b run) as bs := by
  induction as with
  | nil =>
    rw [List.mapM_nil]
    exact pure fun run h => ⟨h, .nil⟩
  | cons a as ih =>
    rw [List.mapM_cons]
    refine (each a List.mem_cons_self).bind fun b => ?_
    have rest := ih fun a' h => each a' (List.mem_cons_of_mem a h)
    refine (rest.frame (stable a b)).bind fun bs => pure fun run ⟨⟨held, others⟩, first⟩ => ?_
    exact ⟨held, .cons first others⟩

theorem forM {as : List α} {f : α → Batch Unit} {I : Run → Prop}
    (each : ∀ a ∈ as, Does fail I (f a) fun _ => I) :
    Does fail I (as.forM f) fun _ => I := by
  induction as with
  | nil => exact pure fun _ h => h
  | cons a as ih =>
    exact (each a List.mem_cons_self).bind fun _ =>
      ih fun a' h => each a' (List.mem_cons_of_mem a h)

theorem onFiles {ε : Type} {wrap : ε → RemapError} {act : Files → Files × Except ε α}
    {post : α → Run → Prop}
    (h : ∀ run, pre run → Files.Keeps (fun _ => True) run.files (act run.files).1 ∧
      match (act run.files).2 with
      | .ok a => post a { run with files := (act run.files).1 }
      | .error _ => fail { run with files := (act run.files).1 }) :
    Does fail pre (onFiles wrap act) post := by
  intro run before
  obtain ⟨keeps, done⟩ := h run before
  rw [run_onFiles]
  refine ⟨⟨keeps, fun _ h => h⟩, ?_⟩
  rcases result : (act run.files).2 with e | a
  · rwa [result] at done
  · rwa [result] at done

theorem askFiles {ε : Type} {wrap : ε → RemapError} {ask : Files → Except ε α}
    (h : ∀ run, pre run → fail run) :
    Does fail pre (askFiles wrap ask) fun a run => pre run ∧ ask run.files = .ok a := by
  refine onFiles fun run before => ⟨.refl _ _, ?_⟩
  dsimp only
  cases ask run.files with
  | error e => exact h run before
  | ok a => exact ⟨before, rfl⟩

theorem changeFiles {ε : Type} {wrap : ε → RemapError} {act : Files → Except ε Files}
    {post : Run → Prop} (failing : ∀ run, pre run → fail run)
    (h : ∀ run files, pre run → act run.files = .ok files →
      Files.Keeps (fun _ => True) run.files files ∧ post { run with files }) :
    Does fail pre (changeFiles wrap act) fun _ => post := by
  refine onFiles fun run before => ?_
  cases changed : act run.files with
  | error e => exact ⟨.refl _ _, failing run before⟩
  | ok files => exact h run files before changed

/-- The remapper plays no part in what is to be shown. -/
theorem onRemapper {act : Remapper → Files → Remapper × Except RemapError α} {I : Run → Prop}
    (blind : ∀ run remapper, I run → I { run with remapper }) (h : ∀ run, I run → fail run) :
    Does fail I (onRemapper act) fun a run => I run ∧ ∃ m, (act m run.files).2 = .ok a := by
  intro run before
  have step : (Pipeline.onRemapper act).run run = ((act run.remapper run.files).2,
      { run with remapper := (act run.remapper run.files).1 }) := rfl
  rw [step]
  refine ⟨⟨.refl _ _, fun _ h => h⟩, ?_⟩
  dsimp only
  cases result : (act run.remapper run.files).2 with
  | error e => exact h _ (blind run _ before)
  | ok a => exact ⟨blind run _ before, run.remapper, result⟩

theorem modify {change : Run → Run} {post : Run → Prop}
    (h : ∀ run, pre run → run.Grows (change run) ∧ post (change run)) :
    Does fail pre (modify change : Batch Unit) fun _ => post :=
  fun run before => h run before

theorem modifyGet {change : Run → α × Run} {post : α → Run → Prop}
    (h : ∀ run, pre run → run.Grows (change run).2 ∧ post (change run).1 (change run).2) :
    Does fail pre (modifyGet change : Batch α) post :=
  fun run before => h run before

theorem get : Does fail pre (get : Batch Run) fun seen run => pre run ∧ seen = run :=
  fun run before => ⟨.refl run, before, rfl⟩

end Does

end ModRemap.Pipeline
