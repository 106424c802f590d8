import Mathlib
import ModRemap.Proofs.BatchSteps
import ModRemap.Proofs.JarOutput

/-! What a step has done when it succeeds. -/

namespace ModRemap.Pipeline

variable {α β ε : Type} {wrap : ε → RemapError} {run run' : Run} {a : α}

theorem run_bind_eq_ok {x : Batch α} {f : α → Batch β} {b : β} :
    (x >>= f).run run = (.ok b, run') ↔
      ∃ a mid, x.run run = (.ok a, mid) ∧ (f a).run mid = (.ok b, run') := by
  rw [run_bind]
  rcases x.run run with ⟨e | a, mid⟩
  · exact ⟨nofun, fun ⟨_, _, h, _⟩ => (nomatch (Prod.mk.inj h).1)⟩
  · constructor
    · exact fun h => ⟨a, mid, rfl, h⟩
    · rintro ⟨a', mid', h, done⟩
      obtain ⟨same, rfl⟩ := Prod.mk.inj h
      exact Except.ok.inj same ▸ done

theorem run_pure_eq_ok {b : α} : (pure a : Batch α).run run = (.ok b, run') ↔ a = b ∧ run = run' := by
  show (Except.ok a, run) = (Except.ok b, run') ↔ _
  rw [Prod.mk.injEq, Except.ok.injEq]

theorem run_throw_ne_ok (e : RemapError) : (throw e : Batch α).run run ≠ (.ok a, run') :=
  fun h => nomatch (Prod.mk.inj h).1

theorem run_onFiles_eq_ok {act : Files → Files × Except ε α} :
    (onFiles wrap act).run run = (.ok a, run') ↔
      ∃ files, act run.files = (files, .ok a) ∧ run' = { run with files } := by
  rw [run_onFiles]
  rcases act run.files with ⟨files, e | a'⟩
  · exact ⟨fun h => (nomatch (Prod.mk.inj h).1), fun ⟨_, h, _⟩ => (nomatch (Prod.mk.inj h).2)⟩
  · constructor
    · intro h
      obtain ⟨same, rfl⟩ := Prod.mk.inj h
      obtain rfl : a' = a := Except.ok.inj same
      exact ⟨files, rfl, rfl⟩
    · rintro ⟨files', h, rfl⟩
      obtain ⟨rfl, same⟩ := Prod.mk.inj h
      obtain rfl := Except.ok.inj same
      rfl

theorem run_askFiles_eq_ok {ask : Files → Except ε α} :
    (askFiles wrap ask).run run = (.ok a, run') ↔ ask run.files = .ok a ∧ run' = run := by
  rw [askFiles, run_onFiles_eq_ok]
  constructor
  · rintro ⟨files, h, rfl⟩
    obtain ⟨rfl, asked⟩ := Prod.mk.inj h
    exact ⟨asked, rfl⟩
  · rintro ⟨asked, rfl⟩
    exact ⟨run'.files, Prod.ext rfl asked, rfl⟩

theorem run_changeFiles_eq_ok {act : Files → Except ε Files} :
    (changeFiles wrap act).run run = (.ok (), run') ↔
      ∃ files, act run.files = .ok files ∧ run' = { run with files } := by
  rw [changeFiles, run_onFiles_eq_ok]
  cases changed : act run.files with
  | error e => exact ⟨fun ⟨_, h, _⟩ => (nomatch (Prod.mk.inj h).2), nofun⟩
  | ok files =>
    constructor
    · rintro ⟨files', h, rfl⟩
      obtain ⟨rfl, _⟩ := Prod.mk.inj h
      exact ⟨files, rfl, rfl⟩
    · rintro ⟨files', h, rfl⟩
      exact ⟨files', Prod.ext (Except.ok.inj h) rfl, rfl⟩

theorem run_onRemapper_eq_ok {act : Remapper → Files → Remapper × Except RemapError α} :
    (onRemapper act).run run = (.ok a, run') ↔
      ∃ remapper, act run.remapper run.files = (remapper, .ok a) ∧ run' = { run with remapper } := by
  show ((act run.remapper run.files).2, { run with remapper := (act run.remapper run.files).1 }) =
    (Except.ok a, run') ↔ _
  rcases act run.remapper run.files with ⟨remapper, result⟩
  constructor
  · intro h
    obtain ⟨same, rfl⟩ := Prod.mk.inj h
    exact ⟨remapper, Prod.ext rfl same, rfl⟩
  · rintro ⟨remapper', h, rfl⟩
    obtain ⟨rfl, same⟩ := Prod.mk.inj h
    exact Prod.ext same rfl

theorem run_modify_eq_ok {change : Run → Run} :
    (modify change : Batch Unit).run run = (.ok (), run') ↔ run' = change run := by
  show (Except.ok (), change run) = (Except.ok (), run') ↔ _
  rw [Prod.mk.injEq, eq_self_iff_true, true_and, eq_comm]

theorem run_modifyGet_eq_ok {change : Run → α × Run} :
    (modifyGet change : Batch α).run run = (.ok a, run') ↔ change run = (a, run') := by
  show (Except.ok (change run).1, (change run).2) = (Except.ok a, run') ↔ _
  rw [Prod.mk.injEq, Except.ok.injEq, Prod.ext_iff]

theorem run_get_eq_ok {seen : Run} :
    (get : Batch Run).run run = (.ok seen, run') ↔ seen = run ∧ run' = run := by
  show (Except.ok run, run) = (Except.ok seen, run') ↔ _
  rw [Prod.mk.injEq, Except.ok.injEq, eq_comm, @eq_comm _ run run']

theorem run_mapM_nil_eq_ok {f : α → Batch β} {bs : List β} :
    (([] : List α).mapM f).run run = (.ok bs, run') ↔ bs = [] ∧ run' = run := by
  rw [List.mapM_nil, run_pure_eq_ok, eq_comm, @eq_comm _ run run']

theorem run_mapM_cons_eq_ok {f : α → Batch β} {as : List α} {bs : List β} :
    ((a :: as).mapM f).run run = (.ok bs, run') ↔ ∃ b mid bs', (f a).run run = (.ok b, mid) ∧
      (as.mapM f).run mid = (.ok bs', run') ∧ bs = b :: bs' := by
  rw [List.mapM_cons]
  constructor
  · intro h
    obtain ⟨b, mid, first, h⟩ := run_bind_eq_ok.mp h
    obtain ⟨bs', mid', rest, h⟩ := run_bind_eq_ok.mp h
    obtain ⟨rfl, rfl⟩ := run_pure_eq_ok.mp h
    exact ⟨b, mid, bs', first, rest, rfl⟩
  · rintro ⟨b, mid, bs', first, rest, rfl⟩
    exact run_bind_eq_ok.mpr ⟨b, mid, first, run_bind_eq_ok.mpr
      ⟨bs', run', rest, run_pure_eq_ok.mpr ⟨rfl, rfl⟩⟩⟩

/-- Questions about each item leave the run as it is. -/
theorem run_mapM_eq_ok {f : α → Batch β} {R : α → β → Prop} {as : List α} {bs : List β}
    (each : ∀ a ∈ as, ∀ b run', (f a).run run = (.ok b, run') → run' = run ∧ R a b)
    (h : (as.mapM f).run run = (.ok bs, run')) :
    run' = run ∧ List.Forall₂ R as bs := by
  induction as generalizing bs with
  | nil =>
    obtain ⟨rfl, rfl⟩ := run_mapM_nil_eq_ok.mp h
    exact ⟨rfl, .nil⟩
  | cons a as ih =>
    obtain ⟨b, mid, bs', first, rest, rfl⟩ := run_mapM_cons_eq_ok.mp h
    obtain ⟨rfl, related⟩ := each a List.mem_cons_self b mid first
    obtain ⟨rfl, others⟩ := ih (fun a' member => each a' (List.mem_cons_of_mem a member)) rest
    exact ⟨rfl, .cons related others⟩

section Questions

variable {ix : MappingIndex} {job : Job} {listed : List Listed}

theorem run_askFiles (ask : Files → Except ε α) (run : Run) :
    (askFiles wrap ask).run run = ((ask run.files).mapError wrap, run) := by
  rw [askFiles, run_onFiles]

/-- A question about a jar is answered by its listing. -/
theorem run_readEntry_bind (whole : Jar.list run.files job.input = .ok listed) (name : String)
    {f : Option Bytes → Batch β} {g : Option Bytes → Except RemapError β}
    (rest : ∀ found, (f found).run run = (g found, run)) :
    ((askFiles RemapError.ofJar fun fs => Jar.readEntry fs job.input name) >>= f).run run =
      ((Jar.lookUp listed name).mapError RemapError.ofJar >>= g, run) := by
  rw [run_bind, run_askFiles, Jar.readEntry_of_list whole]
  cases (Jar.lookUp listed name).mapError RemapError.ofJar with
  | error e => rfl
  | ok found => exact rest found

theorem run_widener (whole : Jar.list run.files job.input = .ok listed) :
    (widener ix job).run run = (widenerIn ix job.artifact.metadata listed, run) := by
  unfold widener widenerIn
  cases job.artifact.metadata.accessWidener with
  | none => rfl
  | some path =>
    refine run_readEntry_bind whole path fun found => ?_
    cases found with
    | none => rfl
    | some bytes =>
      dsimp only
      cases AccessWidener.remap ix bytes with
      | error e => rfl
      | ok out => rfl

theorem run_declaredRefmap (whole : Jar.list run.files job.input = .ok listed) (config : String) :
    (declaredRefmap job config).run run = (declaredRefmapIn listed config, run) := by
  refine run_readEntry_bind whole config fun found => ?_
  cases found with
  | none => rfl
  | some bytes =>
    dsimp only
    cases (RawJson.parse? bytes).bind RawJson.value? with
    | none => rfl
    | some document => rfl

theorem run_remapRefmap (whole : Jar.list run.files job.input = .ok listed) (path : String) :
    (remapRefmap ix job path).run run = (refmapIn ix listed path, run) := by
  refine run_readEntry_bind whole path fun found => ?_
  cases found with
  | none => rfl
  | some bytes =>
    dsimp only
    cases Refmap.remapBytes? ix bytes with
    | none => rfl
    | some out => rfl

theorem run_mapM {f : α → Batch β} {g : α → Except RemapError β} {as : List α}
    (each : ∀ a ∈ as, (f a).run run = (g a, run)) :
    (as.mapM f).run run = (as.mapM g, run) := by
  induction as with
  | nil => rfl
  | cons a as ih =>
    obtain ⟨first, others⟩ := List.forall_mem_cons.mp each
    rw [List.mapM_cons, List.mapM_cons, run_bind, first]
    cases g a with
    | error e => rfl
    | ok b =>
      dsimp only
      rw [run_bind, ih others]
      cases as.mapM g with
      | error e => rfl
      | ok bs => rfl

end Questions

end ModRemap.Pipeline
