import Mathlib
import ModRemap.Proofs.Dict
import ModRemap.Proofs.RemappedClass
import ModRemap.Proofs.SignatureText
import ModRemap.Proofs.SupertypeSearch
import ModRemap.Remap.Remapper

/-! An index from a namespace to itself renames nothing, and a class in which nothing is renamed
keeps its bytes. -/

namespace ModRemap

/-- `f` gives no name another one. -/
def Preserves (f : String → Option String) : Prop := ∀ s t, f s = some t → t = s

section

variable {f : String → Option String} (h : Preserves f)

include h

theorem Preserves.getD_eq (s : String) : (f s).getD s = s := by
  cases found : f s with
  | none => rfl
  | some t => exact h s t found

namespace Descriptor

theorem substitute_eq (name : List Char) : substitute f name = name := by
  rw [substitute, h.getD_eq, String.toList_ofList]

theorem renameFrom_eq (inside : Option (List Char)) (s : List Char) :
    renameFrom f inside s = (inside.map List.reverse).getD [] ++ s := by
  induction s generalizing inside with
  | nil =>
    cases inside with
    | none => rfl
    | some read => exact (List.append_nil _).symm
  | cons c s ih =>
    cases inside with
    | none =>
      rw [renameFrom, ih]
      split_ifs <;> rfl
    | some read =>
      rw [renameFrom]
      split_ifs with close
      · rw [substitute_eq h, ih, close]
        rfl
      · rw [ih]
        simp only [Option.map_some, Option.getD_some, List.reverse_cons, List.append_assoc,
          List.singleton_append]

theorem rename_eq (descriptor : String) : rename f descriptor = descriptor := by
  rw [rename, renameFrom_eq h]
  exact String.ofList_toList

end Descriptor

theorem lookupName_getD_eq (name : List Char) : (lookupName f name).getD name = name := by
  rw [lookupName]
  cases found : f (String.ofList name) with
  | none => rfl
  | some t => rw [Option.map_some, Option.getD_some, h _ t found, String.toList_ofList]

end

variable {f : String → Option String}

mutual

theorem TypeSignature.rename_eq (h : Preserves f) : (t : TypeSignature) → t.rename f = t
  | .base _ => rfl
  | .parameter _ => rfl
  | .array element => by rw [TypeSignature.rename, element.rename_eq h]
  | .named name more => by
    rw [TypeSignature.rename, lookupName_getD_eq h, more.rename_eq h]

/-- The simple name of a nested class is what was put behind the outer name. -/
theorem TypeSuffix.rename_eq (h : Preserves f) : (more : TypeSuffix) → (name : List Char) →
    more.rename f name name = more
  | .done, _ => rfl
  | .arguments args more, name => by
    rw [TypeSuffix.rename, args.rename_eq h, more.rename_eq h]
  | .inner simple more, name => by
    have front : Text.dropStart? (name ++ ['$']) (name ++ '$' :: simple) = some simple :=
      Text.dropStart?_eq_some_iff.mpr (by rw [List.append_assoc, List.singleton_append])
    rw [TypeSuffix.rename, lookupName_getD_eq h, front, Option.getD_some, more.rename_eq h]

theorem TypeArguments.rename_eq (h : Preserves f) : (args : TypeArguments) → args.rename f = args
  | .done => rfl
  | .any more => by rw [TypeArguments.rename, more.rename_eq h]
  | .one variance type more => by
    rw [TypeArguments.rename, type.rename_eq h, more.rename_eq h]

end

theorem TypeParameter.rename_eq (h : Preserves f) (p : TypeParameter) : p.rename f = p := by
  have types : TypeSignature.rename f = id := funext (TypeSignature.rename_eq h)
  rw [TypeParameter.rename, types, Option.map_id, List.map_id]

theorem SignatureBody.rename_eq (h : Preserves f) (b : SignatureBody) : b.rename f = b := by
  have types : TypeSignature.rename f = id := funext (TypeSignature.rename_eq h)
  cases b with
  | method parameters result throws =>
    rw [SignatureBody.rename, types, List.map_id, List.map_id, id_eq]
  | types all => rw [SignatureBody.rename, types, List.map_id]

namespace Signature

theorem renameTree_eq (h : Preserves f) (tree : Signature) : tree.renameTree f = tree := by
  have parameters : TypeParameter.rename f = id := funext (TypeParameter.rename_eq h)
  rw [renameTree, parameters, List.map_id_fun, Option.map_id, SignatureBody.rename_eq h]
  rfl

theorem rename_eq_ok (h : Preserves f) {text new : String} (renamed : rename f text = .ok new) :
    new = text := by
  obtain ⟨tree, parsed, renamed⟩ := except_bind_eq_ok.mp renamed
  rw [← Except.ok.inj renamed, renameTree_eq h, render_of_parse parsed, String.ofList_toList]

end Signature

/-- No look-up in the index gives another name than was looked up. -/
structure MappingIndex.Same (ix : MappingIndex) : Prop where
  classes : Preserves ix.mapClass
  members : ∀ kind owner descriptor, Preserves fun name => ix.mapMember kind owner name descriptor
  methods : ∀ owner, Preserves (ix.mapMethodByName owner)

namespace MappingIndex

/-- Rows that repeat a class or a member, or leave names out, do no harm: whatever row is found, it
gives one name in both roles. -/
theorem same_of_build {t : MappingTable} {ns : String} {ix : MappingIndex}
    (h : build t ns ns = .ok ix) : ix.Same := by
  obtain ⟨s, found, h⟩ := except_bind_eq_ok.mp h
  obtain ⟨s', found', h⟩ := except_bind_eq_ok.mp h
  obtain rfl := Except.ok.inj (found.symm.trans found')
  obtain rfl := Except.ok.inj h
  -- Every class entry comes from a row of the table.
  have row {name : String} {e : ClassEntry} (listed : (Dict.ofList (t.classes.map fun c =>
      (c.name s, classEntry t s s c))).get? name = some e) :
      ∃ c : ClassMapping, name = c.name s ∧ e = classEntry t s s c := by
    obtain ⟨c, _, same⟩ := List.mem_map.mp (Dict.mem_of_get?_ofList listed)
    obtain ⟨rfl, rfl⟩ := Prod.mk.inj same
    exact ⟨c, rfl, rfl⟩
  have member {c : ClassMapping} (kind : MemberKind) {m : MemberEntry}
      (listed : m ∈ (classEntry t s s c).members kind) : m.targetName = m.sourceName := by
    cases kind with
    | field =>
      obtain ⟨m', _, rfl⟩ := List.mem_map.mp listed
      rfl
    | method =>
      obtain ⟨m', _, rfl⟩ := List.mem_map.mp listed
      rfl
  refine ⟨fun name target h => ?_, fun kind owner descriptor name target h => ?_,
    fun owner name target h => ?_⟩
  · obtain ⟨e, listed, rfl⟩ := Option.map_eq_some_iff.mp h
    obtain ⟨c, rfl, rfl⟩ := row listed
    rfl
  · obtain ⟨m, found, rfl⟩ := Option.map_eq_some_iff.mp h
    obtain ⟨e, listed, found⟩ := Option.bind_eq_some_iff.mp found
    obtain ⟨c, rfl, rfl⟩ := row listed
    have asked := List.find?_some found
    rw [Bool.and_eq_true, decide_eq_true_eq, decide_eq_true_eq] at asked
    rw [member kind (List.mem_reverse.mp (List.mem_of_find?_eq_some found)), asked.1]
  · -- A method is found by its name alone only where all its rows agree; the first one decides.
    unfold mapMethodByName at h
    split at h
    · exact nomatch h
    rename_i e listed
    obtain ⟨c, rfl, rfl⟩ := row listed
    split at h
    · exact nomatch h
    rename_i first others names
    split_ifs at h with all
    obtain rfl := Option.some.inj h
    have first_mem : first ∈ ((classEntry t s s c).methods.filter fun m =>
        m.sourceName = name).map MemberEntry.targetName := names ▸ List.mem_cons_self
    obtain ⟨m, listed, rfl⟩ := List.mem_map.mp first_mem
    obtain ⟨listed, asked⟩ := List.mem_filter.mp listed
    rw [member .method listed, of_decide_eq_true asked]

end MappingIndex

namespace Resolver

variable {r : Resolver}

theorem member_eq (same : r.index.Same) {kind : MemberKind} {owner name descriptor new : String}
    (h : r.member kind owner name descriptor = some new) : new = name := by
  obtain ⟨c, _, found⟩ := Hierarchy.exists_of_search h
  exact same.members kind c descriptor name new found

theorem member_getD_eq (same : r.index.Same) (kind : MemberKind) (owner name descriptor : String) :
    (r.member kind owner name descriptor).getD name = name := by
  cases found : r.member kind owner name descriptor with
  | none => rfl
  | some new => exact member_eq same found

theorem callSite_eq (same : r.index.Same) {c : ClassFile} {bootstrap : UInt16}
    {name descriptor new : String} (h : r.callSite c bootstrap name descriptor = .ok (some new)) :
    new = name := by
  unfold callSite at h
  split at h
  · exact nomatch h
  rename_i interface _
  obtain ⟨type, _, h⟩ := except_bind_eq_ok.mp h
  have byName (found : (r.hierarchy.search interface fun owner =>
      r.index.mapMethodByName owner name) = some new) : new = name := by
    obtain ⟨owner, _, found⟩ := Hierarchy.exists_of_search found
    exact same.methods owner name new found
  cases type with
  | none => exact byName (Except.ok.inj h)
  | some type =>
    rcases Option.or_eq_some_iff.mp (Except.ok.inj h) with typed | ⟨_, named⟩
    · exact member_eq same typed
    · exact byName named

theorem declaration_eq (same : r.index.Same) (kind : MemberKind) (access : UInt16)
    (owner name descriptor : String) : r.declaration kind access owner name descriptor = name := by
  unfold declaration
  cases kind with
  | field => exact member_getD_eq same .field owner name descriptor
  | method =>
    dsimp only
    split_ifs
    · rfl
    · exact (same.members .method owner descriptor).getD_eq name
    · exact member_getD_eq same .method owner name descriptor

theorem not_alters (same : r.index.Same) : ¬r.Alters := by
  intro alters
  cases alters with
  | classConstant s other =>
    apply other
    unfold classConstant
    split_ifs
    · exact Descriptor.rename_eq same.classes s
    · exact same.classes.getD_eq s
  | descriptor s other => exact other (Descriptor.rename_eq same.classes s)
  | signature s other =>
    apply other
    unfold signature
    split
    · exact Signature.rename_eq_ok same.classes ‹_›
    · rfl
  | reference tag owner name descriptor other =>
    apply other
    unfold reference
    by_cases array : isArray owner
    · rw [if_pos array]
    · rw [if_neg array]
      exact member_getD_eq same _ owner name descriptor
  | callSite c bootstrap name descriptor new found other => exact other (callSite_eq same found)
  | declaration kind access owner name descriptor other =>
    exact other (declaration_eq same kind access owner name descriptor)

theorem remapClass_eq (same : r.index.Same) {bytes : Bytes} {out : Renamed}
    (h : r.remapClass bytes = .ok out) : out.bytes = bytes ∧ out.new = out.old := by
  obtain ⟨c, c', d, parsed, named, tables, renamed, written⟩ := remapClass_eq_ok.mp h
  obtain ⟨storable, sound⟩ := ClassFile.storable_of_parse parsed
  obtain ⟨step, still, _⟩ := remapTables_spec storable.pool sound tables
  have unmarked : d.changed = false := by
    by_contra marked
    rcases step.alters (Bool.eq_true_of_not_eq_false marked) with before | alters
    · exact nomatch before
    · exact not_alters same alters
  obtain rfl := still unmarked
  obtain rfl := step.still unmarked
  exact ⟨written, Except.ok.inj (renamed.symm.trans named)⟩

end Resolver

namespace Remapper

theorem remapEntry_eq {r : Resolver} (same : r.index.Same) {e e' : Entry}
    (h : remapEntry r e = .ok e') : e' = e := by
  obtain ⟨out, remapped, h⟩ := except_bind_eq_ok.mp h
  obtain rfl := Except.ok.inj h
  cases result : r.remapClass e.bytes with
  | error fault => exact nomatch result ▸ remapped
  | ok out' =>
    rw [result] at remapped
    obtain rfl := Except.ok.inj remapped
    obtain ⟨bytes, name⟩ := Resolver.remapClass_eq same result
    rw [renamedEntry, if_pos name.symm, bytes]

/-- The classes are written as they are, up to the first that cannot be remapped. -/
theorem applyAll_eq {r : Resolver} (same : r.index.Same) (jar : OutputJar) (classes : List Entry) :
    ∃ written rest, classes = written ++ rest ∧
      (applyAll r jar classes).1 = jar.writeAll written ∧
      ((applyAll r jar classes).2 = .ok () → rest = []) := by
  induction classes generalizing jar with
  | nil => exact ⟨[], [], rfl, rfl, fun _ => rfl⟩
  | cons e classes ih =>
    unfold applyAll
    cases remapped : remapEntry r e with
    | error fault => exact ⟨[], e :: classes, rfl, rfl, nofun⟩
    | ok out =>
      obtain rfl := remapEntry_eq same remapped
      obtain ⟨written, rest, rfl, jar', done⟩ := ih (jar.write out)
      exact ⟨out :: written, rest, rfl, jar', done⟩

/-- The hierarchy plays no part: whatever classes are registered, and whatever tables repeat or
leave out, a remapper from a namespace to itself copies. -/
theorem copies_of_build {t : MappingTable} {ns : String} {m : Remapper}
    (built : MappingIndex.build t ns ns = .ok m.index) :
    (∀ bytes out, m.resolver.remapClass bytes = .ok out →
      out.bytes = bytes ∧ out.new = out.old) ∧
    (∀ e e', remapEntry m.resolver e = .ok e' → e' = e) ∧
    ∀ tag classes jar, m.inputs[tag]? = some classes → ∃ written rest,
      classes = written ++ rest ∧ (m.apply tag jar).1 = jar.writeAll written ∧
        ∀ n, (m.apply tag jar).2 = .ok n → rest = [] := by
  have same : m.resolver.index.Same := MappingIndex.same_of_build built
  refine ⟨fun _ _ => Resolver.remapClass_eq same, fun _ _ => remapEntry_eq same, ?_⟩
  intro tag classes jar registered
  obtain ⟨written, rest, split, jar', done⟩ := applyAll_eq same jar classes
  have applied : m.apply tag jar = ((applyAll m.resolver jar classes).1,
      (applyAll m.resolver jar classes).2.map fun () => classes.length) := by
    rw [apply, registered]
  rw [applied]
  refine ⟨written, rest, split, jar', fun n h => done ?_⟩
  cases result : (applyAll m.resolver jar classes).2 with
  | error fault =>
    rw [result] at h
    exact nomatch h
  | ok u => rfl

/-- Two rows give the class `b`, and the later one leaves out the field. -/
theorem copies_of_build_repeated :
    let t : MappingTable :=
      ⟨["s", "t"], [⟨["a", "b"], [⟨"La;", ["f", "g"]⟩], []⟩, ⟨["c", "b"], [], []⟩]⟩
    let ix : MappingIndex :=
      ⟨"t", "t", Dict.ofList [("b", ⟨"b", [], []⟩)], Dict.ofList [("b", "b")]⟩
    let e : Entry := ⟨"b.class", [0xCA, 0xFE, 0xBA, 0xBE, 0, 0, 0, 52, 0, 5, 1, 0, 1, 0x62, 7, 0, 1,
      1, 0, 1, 0x67, 1, 0, 3, 0x4C, 0x62, 0x3B, 0, 0x21, 0, 2, 0, 0, 0, 0, 0, 1, 0, 0, 0, 3, 0, 4,
      0, 0, 0, 0, 0, 0]⟩
    let m : Remapper := { index := ix, inputs := [[e]] }
    let jar : OutputJar := ⟨"out/b.jar", ⟨["out", "b.jar"], 0⟩, [], []⟩
    MappingIndex.build t "t" "t" = .ok ix ∧
      m.resolver.remapClass e.bytes = .ok ⟨"b", "b", e.bytes⟩ ∧
      (m.apply 0 jar).1 = jar.writeAll [e] ∧ (m.apply 0 jar).2 = .ok 1 := by
  intro t ix e m jar
  have built : MappingIndex.build t "t" "t" = .ok m.index := by decide +kernel
  have done : (m.apply 0 jar).2 = .ok 1 := by decide +kernel
  obtain ⟨classes, _, applied⟩ := copies_of_build built
  obtain ⟨written, rest, split, jar', all⟩ := applied 0 [e] jar rfl
  rw [all 1 done, List.append_nil] at split
  refine ⟨built, ?_, split ▸ jar', done⟩
  obtain ⟨⟨old, new, bytes⟩, remapped, name⟩ :
      ∃ out, m.resolver.remapClass e.bytes = .ok out ∧ out.old = "b" :=
    ⟨⟨"b", "b", e.bytes⟩, by decide +kernel, rfl⟩
  obtain ⟨same, renamed⟩ := classes e.bytes _ remapped
  dsimp only at name same renamed
  rw [remapped, renamed, name, same]

end Remapper

end ModRemap
