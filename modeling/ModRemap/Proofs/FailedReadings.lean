import Mathlib
import ModRemap.Proofs.BreadthFirst
import ModRemap.Proofs.RemapperCalls

/-! A jar that cannot be read. No class of it comes under a tag, but the headers in front of the fault
stay in the hierarchy, and with them what their classes inherit, until the remapper finishes. -/

namespace ModRemap

namespace Hierarchy

variable {α : Type} {h h' : Hierarchy} {find : String → Option α}

/-- A search that is done is done with more steps, too. -/
theorem visit_succ {n : ℕ} {seen queue : List String} {result : Option α}
    (done : h.visit find n seen queue = some result) : h.visit find (n + 1) seen queue = some result := by
  induction n generalizing seen queue with
  | zero =>
    cases queue with
    | nil => exact done
    | cons name queue => exact nomatch done
  | succ n ih =>
    cases queue with
    | nil => exact done
    | cons name queue =>
      rw [visit] at done ⊢
      split_ifs at done ⊢
      · exact ih done
      · cases asked : find name with
        | some a => rw [asked] at done; exact done
        | none => rw [asked] at done; exact ih done

theorem visit_mono {n k : ℕ} {seen queue : List String} {result : Option α} (more : n ≤ k)
    (done : h.visit find n seen queue = some result) : h.visit find k seen queue = some result := by
  induction more with
  | refl => exact done
  | step _ ih => exact visit_succ ih

theorem visit_congr {n : ℕ} {seen queue : List String}
    (same : ∀ name ∈ queue, ∀ c, h.Inherits name c → h'.parents c = h.parents c) :
    h'.visit find n seen queue = h.visit find n seen queue := by
  induction n generalizing seen queue with
  | zero => cases queue <;> rfl
  | succ n ih =>
    cases queue with
    | nil => rfl
    | cons name queue =>
      obtain ⟨first, rest⟩ := List.forall_mem_cons.mp same
      rw [visit, visit, ih rest, first name .refl]
      split_ifs
      · rfl
      · cases find name with
        | some a => rfl
        | none =>
          refine ih fun other waits c above => ?_
          rcases List.mem_append.mp waits with before | parent
          · exact rest other before c above
          · exact first c (.head parent above)

/-- A search depends on the classes that are inherited from, and on no other. -/
theorem search_congr {owner : String} (same : ∀ c, h.Inherits owner c → h'.parents c = h.parents c) :
    h'.search owner find = h.search owner find := by
  have one := visit_mono (Nat.le_max_left (h.edges + 1) (h'.edges + 1)) (visit_eq_search h find owner)
  have other := visit_mono (Nat.le_max_right (h.edges + 1) (h'.edges + 1)) (visit_eq_search h' find owner)
  rw [visit_congr (List.forall_mem_singleton.mpr same), one] at other
  exact (Option.some.inj other).symm

/-- The last header that is given for each class is the one that is known of it. -/
def Knows (h : Hierarchy) (headers : List ClassHeader) : Prop :=
  ∀ name header, headers.reverse.find? (fun other => other.name = name) = some header →
    h.get? name = some header

theorem keys_add {headers : List ClassHeader} (known : ∀ header ∈ headers, header.name ∈ Dict.keys h) :
    Dict.keys (h.add headers) = Dict.keys h := by
  induction headers generalizing h with
  | nil => rfl
  | cons header headers ih =>
    obtain ⟨first, rest⟩ := List.forall_mem_cons.mp known
    have same : Dict.keys (h.insert header.name header) = Dict.keys h :=
      (Dict.map_fst_put _ _ _).trans (if_pos first)
    show Dict.keys (add (h.insert header.name header) headers) = _
    rw [ih (same.symm ▸ rest), same]

theorem add_eq_self_iff {headers : List ClassHeader} : h.add headers = h ↔ h.Knows headers := by
  constructor
  · intro same name header last
    rw [← same, get?_add, last, Option.some_or]
  · intro known
    refine Dict.eq_of_keys (keys_add fun header listed => ?_) fun name => ?_
    · have some : (headers.reverse.find? fun other => other.name = header.name).isSome :=
        List.find?_isSome.mpr ⟨header, List.mem_reverse.mpr listed, decide_eq_true rfl⟩
      obtain ⟨last, found⟩ := Option.isSome_iff_exists.mp some
      have there := (Dict.get?_eq_some_iff h _ _).mp (known _ last found)
      exact List.mem_map_of_mem (f := Prod.fst) there
    · rw [get?_add]
      cases found : headers.reverse.find? fun other => other.name = name with
      | none => exact Option.none_or
      | some header => exact (known name header found).symm

theorem parents_add_of_unlisted {headers : List ClassHeader} {c : String}
    (unlisted : ∀ header ∈ headers, header.name ≠ c) : (h.add headers).parents c = h.parents c := by
  have none : headers.reverse.find? (fun header => header.name = c) = none :=
    List.find?_eq_none.mpr fun header listed same =>
      unlisted header (List.mem_reverse.mp listed) (of_decide_eq_true same)
  rw [parents, parents, get?_add, none, Option.none_or]

end Hierarchy

namespace Remapper

variable {m m' : Remapper} {tag : ℕ} {fs : Files} {path : String} {fault : RemapError}

/-- They differ in the hierarchy only. -/
structure SameTags (m m' : Remapper) : Prop where
  index : m.index = m'.index
  inputs : m.inputs = m'.inputs
  finished : m.finished = m'.finished

namespace SameTags

variable (same : m.SameTags m')

include same

theorem attempt (r : Reading) :
    (m.attempt r).1 = (m'.attempt r).1 ∧ (m.attempt r).2.SameTags (m'.attempt r).2 := by
  rw [attempt_eq, attempt_eq]
  refine ⟨by rw [same.inputs], same.index, ?_, same.finished⟩
  show r.register m.inputs = r.register m'.inputs
  rw [same.inputs]

theorem finish : m.finish.SameTags m'.finish := by
  rw [Remapper.finish, Remapper.finish, same.finished]
  split_ifs
  · exact same
  · exact ⟨same.index, rfl, rfl⟩

theorem call (c : Call) : (m.call c).2.SameTags (m'.call c).2 := by
  cases c with
  | reading r => exact (same.attempt r).2
  | finish => exact same.finish
  | apply tag jar => exact same
  | remapClass bytes => exact same

/-- What readings answer does not depend on the hierarchy. -/
theorem answers (calls : List Call) :
    (m.answers calls).filterMap Answer.read? = (m'.answers calls).filterMap Answer.read? := by
  induction calls generalizing m m' with
  | nil => rfl
  | cons c calls ih =>
    rw [Remapper.answers, Remapper.answers, List.filterMap_cons, List.filterMap_cons, ih (same.call c)]
    cases c with
    | reading r =>
      have answer := (same.attempt r).1
      simp only [Remapper.call, Answer.read?, answer]
    | finish => rfl
    | apply tag jar => rfl
    | remapClass bytes => rfl

/-- The first call to finish takes away all that differs. -/
theorem after (fresh : m.finished = false) {calls : List Call} (finishes : .finish ∈ calls) :
    m.after calls = m'.after calls := by
  induction calls generalizing m m' with
  | nil => cases finishes
  | cons c calls ih =>
    show Remapper.after (m.call c).2 calls = Remapper.after (m'.call c).2 calls
    have next := same.call c
    have rest (other : .finish ≠ c) : .finish ∈ calls := (List.mem_cons.mp finishes).resolve_left other
    cases c with
    | reading r =>
      have still : (m.attempt r).2.finished = false := by
        rw [attempt_eq]
        exact fresh
      exact ih next still (rest (by rintro ⟨⟩))
    | finish =>
      have equal : m.finish = m'.finish := by
        rw [Remapper.finish, Remapper.finish, fresh, ← same.finished, fresh, same.index]
        rfl
      show Remapper.after m.finish calls = Remapper.after m'.finish calls
      rw [equal]
    | apply tag jar => exact ih next fresh (rest (by rintro ⟨⟩))
    | remapClass bytes => exact ih next fresh (rest (by rintro ⟨⟩))

end SameTags

theorem state_of_failed (failed : m.readInputs tag fs path = (m', .error fault)) :
    m' = { m with hierarchy := m.hierarchy.add (leadingHeaders fs path) } := by
  rw [readInputs_eq] at failed
  obtain ⟨rfl, outcome⟩ := Prod.mk.inj failed
  have inputs : m.inputs.modify tag (· ++ (jarClasses fs path).toOption.getD []) = m.inputs := by
    cases read : jarClasses fs path with
    | error e =>
      show m.inputs.modify tag (· ++ []) = m.inputs
      simp only [List.append_nil]
      exact List.modify_id tag m.inputs
    | ok classes =>
      refine List.modify_eq_self (Nat.le_of_not_lt fun known => ?_)
      rw [read] at outcome
      exact nomatch (if_pos known).symm.trans outcome
  rw [inputs]

/-- A jar that cannot be read leaves the headers in front of the fault, and nothing else: readings answer
as if it had not been tried, and so does a search that meets none of these classes. The remapper is as it
was just if it knew the headers already, and else once it finishes. -/
theorem readInputs_failed (failed : m.readInputs tag fs path = (m', .error fault)) :
    m' = { m with hierarchy := m.hierarchy.add (leadingHeaders fs path) } ∧
      (m' = m ↔ m.hierarchy.Knows (leadingHeaders fs path)) ∧
      (∀ calls, (m'.answers calls).filterMap Answer.read? = (m.answers calls).filterMap Answer.read?) ∧
      (∀ owner, (∀ c, m.hierarchy.Inherits owner c →
          ∀ header ∈ leadingHeaders fs path, header.name ≠ c) →
        ∀ kind name descriptor, m'.resolver.member kind owner name descriptor =
          m.resolver.member kind owner name descriptor) ∧
      (m.finished = false → ∀ calls, .finish ∈ calls → m'.after calls = m.after calls) := by
  obtain rfl := state_of_failed failed
  have same : SameTags { m with hierarchy := m.hierarchy.add (leadingHeaders fs path) } m :=
    ⟨rfl, rfl, rfl⟩
  refine ⟨rfl, ?_, same.answers, fun owner apart kind name descriptor => ?_,
    fun fresh calls finishes => same.after fresh finishes⟩
  · rw [← Hierarchy.add_eq_self_iff]
    exact ⟨congrArg hierarchy, fun equal => congrArg (fun h => { m with hierarchy := h }) equal⟩
  · exact Hierarchy.search_congr fun c above => Hierarchy.parents_add_of_unlisted (apart c above)

open ClassFile in
/-- The second class of the jar is none. The first one is known with another superclass, and loses it. -/
theorem readInputs_failed_second :
    let jar : List Entry := [⟨"C.class", (blank.edited (init "C" (some "S"))).write⟩, ⟨"D.class", []⟩]
    let fs : Files := { nodes := Dict.ofList [(["c.jar"], .file (.archive jar))] }
    let ix : MappingIndex := ⟨"s", "t", Dict.ofList [("T", ⟨"T", [], [⟨"m", "()V", "n", "()V"⟩]⟩)], ∅⟩
    let h : Hierarchy := Dict.ofList [("C", ⟨"C", some "T", []⟩), ("D", ⟨"D", some "T", []⟩)]
    let m : Remapper := { index := ix, inputs := [[]], hierarchy := h }
    let m' := (m.readInputs 0 fs "c.jar").1
    let calls : List Call := [.reading .newTag, .reading (.inputs 1 fs "c.jar")]
    m.readInputs 0 fs "c.jar" = (m', .error (.malformedClass "D.class" .unexpectedEnd)) ∧
      m'.hierarchy.get? "C" = some ⟨"C", some "S", []⟩ ∧ ¬ h.Knows (leadingHeaders fs "c.jar") ∧
      (m'.answers calls).filterMap Answer.read? = (m.answers calls).filterMap Answer.read? ∧
      m'.resolver.member .method "D" "m" "()V" = some "n" ∧ m'.after [.finish] = m.after [.finish] := by
  intro jar fs ix h m m' calls
  have fault : (m.readInputs 0 fs "c.jar").2 = .error (.malformedClass "D.class" .unexpectedEnd) := by
    decide +kernel
  have failed : m.readInputs 0 fs "c.jar" = (m', .error (.malformedClass "D.class" .unexpectedEnd)) :=
    Prod.mk.eta.symm.trans (congrArg (Prod.mk m') fault)
  have behind : m'.hierarchy.get? "C" = some ⟨"C", some "S", []⟩ := by decide +kernel
  obtain ⟨-, unchanged, alike, elsewhere, ends⟩ := readInputs_failed failed
  have other : m' ≠ m := by
    intro same
    rw [same] at behind
    exact absurd behind (by decide +kernel)
  have taken : ∀ header ∈ leadingHeaders fs "c.jar", header.name = "C" := by decide +kernel
  have above : ∀ c, h.Inherits "D" c → c ∈ ["D", "T"] := by
    intro c path
    have step : ∀ b ∈ ["D", "T"], ∀ a ∈ h.parents b, a ∈ ["D", "T"] := by decide +kernel
    induction path with
    | refl => exact List.mem_cons_self
    | tail _ parent ih => exact step _ ih _ parent
  have apart : ∀ c, h.Inherits "D" c → ∀ header ∈ leadingHeaders fs "c.jar", header.name ≠ c := by
    rintro c path header listed rfl
    have other := above _ path
    rw [taken header listed] at other
    exact absurd other (by decide)
  refine ⟨failed, behind, mt unchanged.mpr other, alike calls, ?_, ends rfl [.finish] List.mem_cons_self⟩
  rw [elsewhere "D" apart]
  decide +kernel

open ClassFile in
/-- A class keeps what it inherits after its jar has been refused because of another class. -/
theorem renamed_after_failed :
    let ix : MappingIndex := ⟨"intermediary", "named",
      Dict.ofList [("S", ⟨"S", [], [⟨"m", "()V", "t", "()V"⟩]⟩)], Dict.ofList [("S", "S")]⟩
    let c := blank.edited do init "C" (some "S"); addMethod 1 "m" "()V"
    let c' := c.edited do
      let t ← onPool (ConstantPool.internText "t")
      modify fun c => { c with methods := [⟨1, t, 6, []⟩] }
    let jar : List Entry := [⟨"C.class", c.write⟩, ⟨"D.class", []⟩]
    let fs : Files := { nodes := Dict.ofList [(["c.jar"], .file (.archive jar))] }
    let m := ({ index := ix } : Remapper).after [.reading .newTag]
    let m' := (m.readInputs 0 fs "c.jar").1
    (m.readInputs 0 fs "c.jar").2 = .error (.malformedClass "D.class" .unexpectedEnd) ∧
      m.resolver.remapClass c.write = .ok ⟨"C", "C", c.write⟩ ∧
      m'.resolver.remapClass c.write = .ok ⟨"C", "C", c'.write⟩ ∧ c'.write ≠ c.write ∧
      parse c'.write = .ok c' ∧ c.Declares 0 1 "m" "()V" ∧ c'.Declares 0 1 "t" "()V" := by
  intro ix c c' jar fs m m'
  refine ⟨?_, ?_, ?_, ?_, ?_, ?_, ?_⟩
  all_goals decide +kernel

end Remapper

end ModRemap
