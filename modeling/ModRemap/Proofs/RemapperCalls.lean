import Mathlib
import ModRemap.Proofs.RenamedSymbols
import ModRemap.Proofs.ReadingOrder

/-! A remapper under any calls, whether they succeed or not. A reading tells how many classes it found,
which depends on the jar and on the tags there are; what it leaves is told for every outcome, since
headers are taken one by one until one cannot be read. Only the first call to finish lets go of anything. -/

namespace ModRemap

/-- What there is before the first fault. -/
def leading {ε α : Type} : List (Except ε α) → List α
  | .ok a :: rest => a :: leading rest
  | _ => []

namespace Hierarchy

theorem eq_empty_iff {h : Hierarchy} : h = ∅ ↔ ∀ name, h.get? name = none := by
  refine ⟨fun empty name => empty ▸ rfl, fun unknown => Dict.eq_of_entries ?_⟩
  refine List.eq_nil_iff_forall_not_mem.mpr fun p listed => ?_
  exact nomatch (unknown p.1).symm.trans ((Dict.get?_eq_some_iff h p.1 p.2).mpr listed)

theorem add_eq_empty_iff {h : Hierarchy} {headers : List ClassHeader} :
    h.add headers = ∅ ↔ h = ∅ ∧ headers = [] := by
  constructor
  · intro empty
    have unknown := eq_empty_iff.mp empty
    simp only [get?_add, Option.or_eq_none_iff, List.find?_eq_none] at unknown
    refine ⟨eq_empty_iff.mpr fun name => (unknown name).2, ?_⟩
    refine List.eq_nil_iff_forall_not_mem.mpr fun header listed => ?_
    exact (unknown header.name).1 header (List.mem_reverse.mpr listed) (decide_eq_true rfl)
  · rintro ⟨rfl, rfl⟩
    rfl

theorem keep_eq_empty_iff {h : Hierarchy} {headers : List ClassHeader} :
    h.keep headers = ∅ ↔ h = ∅ ∧ headers = [] := by
  constructor
  · intro empty
    have unknown := eq_empty_iff.mp empty
    simp only [get?_keep, Option.or_eq_none_iff, List.find?_eq_none] at unknown
    refine ⟨eq_empty_iff.mpr fun name => (unknown name).1, ?_⟩
    refine List.eq_nil_iff_forall_not_mem.mpr fun header listed => ?_
    exact (unknown header.name).2 header listed (decide_eq_true rfl)
  · rintro ⟨rfl, rfl⟩
    rfl

end Hierarchy

namespace Remapper

variable {m m' : Remapper} {ix : MappingIndex} {r : Reading} {rs : List Reading}

/-! ### Readings that may fail -/

/-- The header of an entry that is a class. -/
def header? (e : Listed) : Option (Except RemapError ClassHeader) :=
  match RemapError.jar (Jar.entry? isInput e) with
  | .error fault => some (.error fault)
  | .ok none => none
  | .ok (some c) => some (classError c.name (ClassFile.parseHeader c.bytes))

/-- The headers of the classes in a jar up to the first fault. -/
def leadingHeaders (fs : Files) (path : String) : List ClassHeader :=
  match Jar.list fs path with
  | .error _ => []
  | .ok listed => leading (listed.filterMap header?)

/-- The classes of a jar, if all of them have headers. -/
def jarClasses (fs : Files) (path : String) : Except RemapError (List Entry) :=
  match Jar.list fs path with
  | .error e => .error (.ofJar e)
  | .ok listed => (readListed ∅ [] listed).2

theorem readListed_fst (h : Hierarchy) (found : List Entry) (listed : List Listed) :
    (readListed h found listed).1 = h.add (leading (listed.filterMap header?)) := by
  induction listed generalizing h found with
  | nil => rfl
  | cons e listed ih =>
    cases opened : RemapError.jar (Jar.entry? isInput e) with
    | error fault => simp only [readListed, List.filterMap_cons, header?, opened, leading]; rfl
    | ok chosen =>
      cases chosen with
      | none => simp only [readListed, List.filterMap_cons, header?, opened, ih]
      | some c =>
        cases parsed : classError c.name (ClassFile.parseHeader c.bytes) with
        | error fault =>
          simp only [readListed, List.filterMap_cons, header?, opened, parsed, leading]
          rfl
        | ok header =>
          simp only [readListed, List.filterMap_cons, header?, opened, parsed, leading, ih]
          rfl

/-- Whether a jar can be read does not depend on what is known of its classes. -/
theorem readListed_snd (h h' : Hierarchy) (found : List Entry) (listed : List Listed) :
    (readListed h found listed).2 = (readListed h' found listed).2 := by
  induction listed generalizing h h' found with
  | nil => rfl
  | cons e listed ih =>
    simp only [readListed]
    split
    · rfl
    · exact ih h h' found
    · split
      · rfl
      · exact ih _ _ _

theorem jar_ne_unknownTag {α : Type} (x : Except JarError α) :
    RemapError.jar x ≠ .error .unknownTag := by
  rcases x with (_ | _) | a <;> exact nofun

theorem classError_ne_unknownTag {α : Type} (entry : String) (x : Except ClassError α) :
    classError entry x ≠ .error .unknownTag := by
  cases x <;> exact nofun

theorem readListed_ne_unknownTag (h : Hierarchy) (found : List Entry) (listed : List Listed) :
    (readListed h found listed).2 ≠ .error .unknownTag := by
  induction listed generalizing h found with
  | nil => exact nofun
  | cons e listed ih =>
    simp only [readListed]
    split
    · rename_i fault opened
      intro same
      exact jar_ne_unknownTag _ (opened.trans (congrArg Except.error (Except.error.inj same)))
    · exact ih h found
    · rename_i c opened
      split
      · rename_i fault parsed
        intro same
        exact classError_ne_unknownTag _ _ (parsed.trans (congrArg Except.error (Except.error.inj same)))
      · exact ih _ _

theorem jarClasses_ne_unknownTag (fs : Files) (path : String) :
    jarClasses fs path ≠ .error .unknownTag := by
  unfold jarClasses
  split
  · rename_i e _
    cases e <;> exact nofun
  · exact readListed_ne_unknownTag _ _ _

/-- The classes of a jar come under the tag if there is one; the headers are taken in any case. -/
theorem readInputs_eq (m : Remapper) (tag : ℕ) (fs : Files) (path : String) :
    m.readInputs tag fs path =
      ({ m with
        hierarchy := m.hierarchy.add (leadingHeaders fs path)
        inputs := m.inputs.modify tag (· ++ (jarClasses fs path).toOption.getD []) },
      (jarClasses fs path).bind fun classes =>
        if tag < m.inputs.length then .ok classes.length else .error .unknownTag) := by
  have same : m.inputs.modify tag (· ++ []) = m.inputs := by
    simp only [List.append_nil]
    exact List.modify_id tag m.inputs
  unfold readInputs leadingHeaders jarClasses
  cases Jar.list fs path with
  | error e =>
    refine Prod.ext ?_ rfl
    show m = { m with inputs := m.inputs.modify tag (· ++ []) }
    rw [same]
  | ok listed =>
    have read : readListed m.hierarchy [] listed =
        (m.hierarchy.add (leading (listed.filterMap header?)), (readListed ∅ [] listed).2) :=
      Prod.ext (readListed_fst _ _ _) (readListed_snd _ _ _ _)
    dsimp only
    rw [read]
    cases (readListed ∅ [] listed).2 with
    | error e =>
      refine Prod.ext ?_ rfl
      show _ = { m with hierarchy := _, inputs := m.inputs.modify tag (· ++ []) }
      rw [same]
    | ok classes =>
      show (if _ then _ else _) = ({ m with hierarchy := _, inputs := _ }, if _ then _ else _)
      by_cases known : tag < m.inputs.length
      · rw [if_pos known, if_pos known]
        rfl
      · have unchanged : m.inputs.modify tag (· ++ classes) = m.inputs :=
          List.modify_eq_self (Nat.le_of_not_lt known)
        rw [if_neg known, if_neg known]
        refine Prod.ext ?_ rfl
        show { m with hierarchy := _ } =
          { m with hierarchy := _, inputs := m.inputs.modify tag (· ++ classes) }
        rw [unchanged]

namespace Reading

def isNewTag : Reading → Bool
  | .newTag => true
  | _ => false

/-- What a reading answers where there are so many tags. -/
def answer (tags : ℕ) : Reading → Except RemapError ℕ
  | .newTag => .ok tags
  | .inputs tag fs path => (jarClasses fs path).bind fun classes =>
    if tag < tags then .ok classes.length else .error .unknownTag
  | .host fs paths => (classpathHeaders fs paths).map List.length

/-- What a reading makes of the classes under the tags. -/
def register (ins : List (List Entry)) : Reading → List (List Entry)
  | .newTag => ins ++ [[]]
  | .inputs tag fs path => ins.modify tag (· ++ (jarClasses fs path).toOption.getD [])
  | .host _ _ => ins

/-- The headers of a mod that a reading takes, also where it fails. -/
def met : Reading → List ClassHeader
  | .inputs _ fs path => leadingHeaders fs path
  | _ => []

/-- The hierarchy with all headers that a reading takes. -/
def extend (ix : MappingIndex) (h : Hierarchy) (r : Reading) : Hierarchy :=
  (h.add r.met).keep (r.hosts ix)

end Reading

/-- The outcome of a reading, and the state after it. -/
def attempt (m : Remapper) : Reading → Except RemapError ℕ × Remapper
  | .newTag => (.ok m.createTag.1, m.createTag.2)
  | .inputs tag fs path => (m.readInputs tag fs path).swap
  | .host fs paths =>
    match m.readClasspath fs paths with
    | .error e => (.error e, m)
    | .ok (m', n) => (.ok n, m')

theorem attempt_eq (m : Remapper) (r : Reading) : m.attempt r = (r.answer m.inputs.length,
    { m with hierarchy := r.extend m.index m.hierarchy, inputs := r.register m.inputs }) := by
  cases r with
  | newTag => rfl
  | inputs tag fs path =>
    rw [attempt, readInputs_eq]
    rfl
  | host fs paths =>
    cases whole : classpathHeaders fs paths with
    | error e =>
      have failed : m.readClasspath fs paths = .error e := by
        rw [readClasspath, whole]
        rfl
      simp only [attempt, failed, Reading.answer, Reading.extend, Reading.hosts, Reading.met, whole]
      rfl
    | ok hs =>
      have done : m.readClasspath fs paths = .ok
          ({ m with hierarchy := m.hierarchy.keep (hs.map (toSource m.index)) }, hs.length) :=
        readClasspath_eq_ok.mpr ⟨hs, whole, rfl, rfl⟩
      simp only [attempt, done, Reading.answer, Reading.extend, Reading.hosts, Reading.met, whole]
      rfl

/-! ### Calls -/

/-- What a remapper is asked to do. -/
inductive Call where
  | reading (r : Reading)
  | apply (tag : ℕ) (jar : OutputJar)
  | remapClass (bytes : Bytes)
  | finish

inductive Answer where
  | read (result : Except RemapError ℕ)
  | applied (jar : OutputJar) (result : Except RemapError ℕ)
  | renamed (result : Except ClassError Resolver.Renamed)
  | finished

def Answer.read? : Answer → Option (Except RemapError ℕ)
  | .read result => some result
  | _ => none

def call (m : Remapper) : Call → Answer × Remapper
  | .reading r => (.read (m.attempt r).1, (m.attempt r).2)
  | .apply tag jar => (.applied (m.apply tag jar).1 (m.apply tag jar).2, m)
  | .remapClass bytes => (.renamed (m.resolver.remapClass bytes), m)
  | .finish => (.finished, m.finish)

/-- The state after calls. -/
def after (m : Remapper) (calls : List Call) : Remapper := calls.foldl (fun m c => (m.call c).2) m

def answers (m : Remapper) : List Call → List Answer
  | [] => []
  | c :: calls => (m.call c).1 :: answers (m.call c).2 calls

/-- The state after readings, of which some may fail. -/
def afterReadings (m : Remapper) (rs : List Reading) : Remapper :=
  rs.foldl (fun m r => (m.attempt r).2) m

theorem afterReadings_eq (m : Remapper) (rs : List Reading) : m.afterReadings rs = { m with
    hierarchy := rs.foldl (Reading.extend m.index) m.hierarchy
    inputs := rs.foldl Reading.register m.inputs } := by
  induction rs generalizing m with
  | nil => rfl
  | cons r rs ih =>
    show afterReadings (m.attempt r).2 rs = _
    rw [ih, attempt_eq]
    rfl

namespace Call

def reading? : Call → Option Reading
  | .reading r => some r
  | _ => none

/-- The calls after the first one to finish. -/
def later : List Call → List Call
  | [] => []
  | .finish :: calls => calls
  | _ :: calls => later calls

end Call

/-- A remapper that has finished takes readings, and nothing else changes it. -/
theorem after_of_finished (done : m.finished = true) (calls : List Call) :
    m.after calls = m.afterReadings (calls.filterMap Call.reading?) := by
  induction calls generalizing m with
  | nil => rfl
  | cons c calls ih =>
    show after (m.call c).2 calls = _
    cases c with
    | reading r =>
      have still : (m.attempt r).2.finished = true := by
        rw [attempt_eq]
        exact done
      exact ih still
    | apply tag jar => exact ih done
    | remapClass bytes => exact ih done
    | finish =>
      have same : m.finish = m := by rw [finish, if_pos done]
      show after m.finish calls = _
      rw [same]
      exact ih done

theorem after_finish_of_unfinished (fresh : m.finished = false) (calls : List Call) :
    m.after (calls ++ [.finish]) =
      ({ m with hierarchy := ∅, inputs := [], finished := true } : Remapper).afterReadings
        ((Call.later calls).filterMap Call.reading?) := by
  induction calls generalizing m with
  | nil =>
    show m.finish = { m with hierarchy := ∅, inputs := [], finished := true }
    rw [finish, fresh]
    rfl
  | cons c calls ih =>
    show after (m.call c).2 (calls ++ [.finish]) = _
    cases c with
    | reading r =>
      have still : (m.attempt r).2.finished = false := by
        rw [attempt_eq]
        exact fresh
      have index : (m.attempt r).2.index = m.index := by rw [attempt_eq]
      refine (ih still).trans ?_
      rw [index]
      rfl
    | apply tag jar => exact ih fresh
    | remapClass bytes => exact ih fresh
    | finish =>
      have cleared : m.finish = { m with hierarchy := ∅, inputs := [], finished := true } := by
        rw [finish, fresh]
        rfl
      show after m.finish (calls ++ [.finish]) = _
      rw [cleared, after_of_finished rfl, List.filterMap_append]
      rw [show [Call.finish].filterMap Call.reading? = [] from rfl, List.append_nil]
      rfl

/-! ### What is let go of -/

/-- There is no tag, and nothing is known of any class. -/
structure Released (m : Remapper) : Prop where
  inputs : m.inputs = []
  hierarchy : m.hierarchy = ∅

theorem length_register (ins : List (List Entry)) (r : Reading) :
    (r.register ins).length = ins.length + [r].countP Reading.isNewTag := by
  cases r with
  | newTag => exact List.length_append
  | inputs tag fs path => exact List.length_modify _ _ _
  | host fs paths => rfl

theorem length_foldl_register (ins : List (List Entry)) (rs : List Reading) :
    (rs.foldl Reading.register ins).length = ins.length + rs.countP Reading.isNewTag := by
  induction rs generalizing ins with
  | nil => rfl
  | cons r rs ih =>
    rw [List.foldl_cons, ih, length_register, Nat.add_assoc, ← List.countP_append, List.singleton_append]

theorem extend_eq_empty_iff {h : Hierarchy} :
    r.extend ix h = ∅ ↔ h = ∅ ∧ r.met = [] ∧ r.hosts ix = [] := by
  rw [Reading.extend, Hierarchy.keep_eq_empty_iff, Hierarchy.add_eq_empty_iff, and_assoc]

theorem foldl_extend_eq_empty_iff {h : Hierarchy} : rs.foldl (Reading.extend ix) h = ∅ ↔
    h = ∅ ∧ ∀ r ∈ rs, r.met = [] ∧ r.hosts ix = [] := by
  induction rs generalizing h with
  | nil => simp only [List.foldl_nil, List.not_mem_nil, false_imp_iff, implies_true, and_true]
  | cons r rs ih => rw [List.foldl_cons, ih, extend_eq_empty_iff, List.forall_mem_cons, and_assoc]

theorem applyAll_ne_unknownTag (r : Resolver) (jar : OutputJar) (classes : List Entry) :
    (applyAll r jar classes).2 ≠ .error .unknownTag := by
  induction classes generalizing jar with
  | nil =>
    intro same
    cases same
  | cons c classes ih =>
    simp only [applyAll]
    split
    · rename_i fault failed
      intro same
      cases remapped : classError c.name (r.remapClass c.bytes) with
      | error e =>
        rw [remapEntry, remapped] at failed
        obtain rfl := Except.error.inj failed
        exact classError_ne_unknownTag _ _ (remapped.trans (congrArg Except.error (Except.error.inj same)))
      | ok renamed =>
        rw [remapEntry, remapped] at failed
        cases failed
    · exact ih _

theorem apply_eq_unknownTag_iff {tag : ℕ} {jar : OutputJar} :
    (m.apply tag jar).2 = .error .unknownTag ↔ m.inputs.length ≤ tag := by
  rw [apply, ← List.getElem?_eq_none_iff]
  cases m.inputs[tag]? with
  | none => exact iff_of_true rfl rfl
  | some classes =>
    refine iff_of_false ?_ (Option.some_ne_none _)
    show (applyAll m.resolver jar classes).2.map (fun _ => classes.length) ≠ _
    have other := applyAll_ne_unknownTag m.resolver jar classes
    cases written : (applyAll m.resolver jar classes).2 with
    | error e => exact fun same => other (written.trans (congrArg Except.error (Except.error.inj same)))
    | ok _ =>
      intro same
      cases same

theorem readInputs_eq_unknownTag_iff {tag : ℕ} {fs : Files} {path : String} :
    (m.readInputs tag fs path).2 = .error .unknownTag ↔
      (∃ classes, jarClasses fs path = .ok classes) ∧ m.inputs.length ≤ tag := by
  rw [readInputs_eq]
  have other := jarClasses_ne_unknownTag fs path
  cases read : jarClasses fs path with
  | error e =>
    refine iff_of_false (fun same => other ?_) fun readable => nomatch readable.1.choose_spec
    exact read.trans (congrArg Except.error (Except.error.inj same))
  | ok classes =>
    rw [and_iff_right ⟨classes, rfl⟩, ← Nat.not_lt]
    show (if tag < m.inputs.length then _ else _) = _ ↔ _
    split_ifs with known
    · exact iff_of_false nofun (not_not_intro known)
    · exact iff_of_true rfl known

theorem Released.member (released : m.Released) (kind : MemberKind) (owner name descriptor : String) :
    m.resolver.member kind owner name descriptor = m.index.mapMember kind owner name descriptor := by
  rw [Resolver.member, resolver, released.hierarchy]
  show Hierarchy.searchWithin _ 1 ∅ [owner] = _
  rw [Hierarchy.searchWithin]
  cases m.index.mapMember kind owner name descriptor <;> rfl

/-- From the first call to finish on, the remapper is a new one that finishing does nothing to: it is
without classes after a call to finish just while nothing has been read since that first one. -/
theorem finish_outcome (ix : MappingIndex) (calls : List Call) :
    let m := ({ index := ix } : Remapper).after (calls ++ [.finish])
    let rs := (Call.later calls).filterMap Call.reading?
    m = { ({ index := ix } : Remapper).afterReadings rs with finished := true } ∧
      (m.Released ↔ ∀ r ∈ rs, r.isNewTag = false ∧ r.met = [] ∧ r.hosts ix = []) ∧
      (∀ tag jar, (m.apply tag jar).2 = .error .unknownTag ↔ rs.countP Reading.isNewTag ≤ tag) ∧
      (∀ tag fs path, (m.readInputs tag fs path).2 = .error .unknownTag ↔
        (∃ classes, jarClasses fs path = .ok classes) ∧ rs.countP Reading.isNewTag ≤ tag) ∧
      (m.Released → ∀ kind owner name descriptor,
        m.resolver.member kind owner name descriptor = ix.mapMember kind owner name descriptor) := by
  intro m rs
  have state : m = { ({ index := ix } : Remapper).afterReadings rs with finished := true } := by
    refine (after_finish_of_unfinished rfl calls).trans ?_
    rw [afterReadings_eq, afterReadings_eq]
  rw [afterReadings_eq] at state
  have tags : m.inputs.length = rs.countP Reading.isNewTag := by
    rw [state]
    exact (length_foldl_register [] rs).trans (Nat.zero_add _)
  have index : m.index = ix := by rw [state]
  refine ⟨by rw [state, afterReadings_eq], ?_, fun tag jar => ?_, fun tag fs path => ?_,
    fun released kind owner name descriptor => index ▸ released.member kind owner name descriptor⟩
  · have hierarchy : m.hierarchy = ∅ ↔ ∀ r ∈ rs, r.met = [] ∧ r.hosts ix = [] := by
      rw [state]
      exact foldl_extend_eq_empty_iff.trans (and_iff_right rfl)
    have inputs : m.inputs = [] ↔ ∀ r ∈ rs, r.isNewTag = false := by
      rw [← List.length_eq_zero_iff, tags, List.countP_eq_zero]
      simp only [Bool.not_eq_true]
    rw [forall₂_and, ← hierarchy, ← inputs]
    exact ⟨fun h => ⟨h.inputs, h.hierarchy⟩, fun h => ⟨h.1, h.2⟩⟩
  · rw [apply_eq_unknownTag_iff, tags]
  · rw [readInputs_eq_unknownTag_iff, tags]

open ClassFile in
/-- What was registered before the first call to finish is gone. -/
theorem finish_outcome_first :
    let ix : MappingIndex := ⟨"s", "t", Dict.ofList [("S", ⟨"S", [], [⟨"m", "()V", "n", "()V"⟩]⟩)], ∅⟩
    let c := blank.edited do init "C" (some "S"); addMethod 1 "m" "()V"
    let fs : Files := { nodes := Dict.ofList [(["c.jar"], .file (.archive [⟨"C.class", c.write⟩]))] }
    let calls : List Call := [.reading .newTag, .reading (.inputs 0 fs "c.jar")]
    let m := ({ index := ix } : Remapper).after (calls ++ [.finish])
    (({ index := ix } : Remapper).after calls).inputs = [[⟨"C.class", c.write⟩]] ∧ m.Released ∧
      (∀ jar, (m.apply 0 jar).2 = .error .unknownTag) ∧
      (m.readInputs 0 fs "c.jar").2 = .error .unknownTag ∧
      m.resolver.member .method "C" "m" "()V" = ix.mapMember .method "C" "m" "()V" := by
  intro ix c fs calls m
  obtain ⟨-, released, applied, read, own⟩ := finish_outcome ix calls
  have readable : jarClasses fs "c.jar" = .ok [⟨"C.class", c.write⟩] := by decide +kernel
  have empty := released.mpr fun r member => nomatch member
  exact ⟨by decide +kernel, empty, fun jar => (applied 0 jar).mpr (Nat.le_refl 0),
    (read 0 fs "c.jar").mpr ⟨⟨_, readable⟩, Nat.le_refl 0⟩, own empty .method "C" "m" "()V"⟩

open ClassFile in
/-- A remapper that is used again after it has finished: the second call to finish lets go of nothing, and
the class of the mod still has the name that its superclass gives it. -/
theorem registered_after_finish :
    let ix : MappingIndex := ⟨"intermediary", "named",
      Dict.ofList [("S", ⟨"S", [], [⟨"m", "()V", "t", "()V"⟩]⟩)], Dict.ofList [("S", "S")]⟩
    let c := blank.edited do init "C" (some "S"); addMethod 1 "m" "()V"
    let c' := c.edited do
      let t ← onPool (ConstantPool.internText "t")
      modify fun c => { c with methods := [⟨1, t, 6, []⟩] }
    let fs : Files := { nodes := Dict.ofList [(["c.jar"], .file (.archive [⟨"C.class", c.write⟩]))] }
    let calls : List Call := [.finish, .reading .newTag, .reading (.inputs 0 fs "c.jar")]
    let m := ({ index := ix } : Remapper).after (calls ++ [.finish])
    m.inputs = [[⟨"C.class", c.write⟩]] ∧ m.hierarchy.get? "C" = some ⟨"C", some "S", []⟩ ∧
      ¬ m.Released ∧ (∀ jar, (m.apply 0 jar).2 ≠ .error .unknownTag) ∧
      (m.readInputs 0 fs "c.jar").2 = .ok 1 ∧
      m.resolver.remapClass c.write = .ok ⟨"C", "C", c'.write⟩ ∧ parse c'.write = .ok c' ∧
      c'.Declares 0 1 "t" "()V" := by
  intro ix c c' fs calls m
  have inputs : m.inputs = [[⟨"C.class", c.write⟩]] := by decide +kernel
  have held : ¬ m.Released := fun released => nomatch inputs.symm.trans released.inputs
  refine ⟨inputs, ?_, held, fun jar => ?_, ?_, ?_, ?_, ?_⟩
  · decide +kernel
  · rw [Ne, apply_eq_unknownTag_iff, inputs]
    decide
  all_goals decide +kernel

end Remapper

end ModRemap
