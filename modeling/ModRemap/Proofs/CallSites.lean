import Mathlib
import ModRemap.Proofs.RenamedSymbols

/-! Call sites and the interface methods that they implement. The method type of a call site tells
which method of the interface that is. Where the search for this method finds nothing, the name
alone is searched for, as it is where there is no method type. -/

namespace ModRemap

/-- Adds a call site, and a bootstrap method that takes a method type for it. -/
def ClassFile.addCallSite (name descriptor type : String) : Edit Unit := do
  let type ← onPool (ConstantPool.internText type)
  let type ← onPool (ConstantPool.push (.methodType type))
  let symbol ← onPool (ConstantPool.internNameAndType name descriptor)
  discard (onPool (ConstantPool.push (.dynamic Constant.invokeDynamicTag 0 symbol)))
  let factory ← addReference 10 "B" "b" "()V"
  let handle ← onPool (ConstantPool.push (.methodHandle 6 factory))
  let table ← onPool (ConstantPool.internText "BootstrapMethods")
  let info := Bytes.ofU2 1 ++ Bytes.ofU2 handle ++ Bytes.ofU2 1 ++ Bytes.ofU2 type
  modify fun c => { c with attributes := c.attributes ++ [⟨table, info⟩] }

namespace Resolver

variable {r : Resolver} {e : ClassFile} {interface name descriptor type : String}
  {bootstrap : UInt16}

/-- The one name that an interface, or the nearest that it extends, lists for all methods of a
name. -/
def byName (r : Resolver) (interface name : String) : Option String :=
  r.hierarchy.search interface fun owner => r.index.mapMethodByName owner name

theorem callSite_of_type (returned : returnedClass? descriptor = some interface)
    (typed : bootstrapType e.pool bootstrap e.attributes = .ok (some type)) :
    r.callSite e bootstrap name descriptor =
      .ok ((r.member .method interface name type).or (r.byName interface name)) := by
  simp only [callSite, returned, typed]
  rfl

/-- The call site and the method part where the name alone finds what the method type does not. -/
theorem callSite_eq_member_iff :
    ((r.member .method interface name type).or (r.byName interface name)).getD name =
        (r.member .method interface name type).getD name ↔
      r.member .method interface name type ≠ none ∨
        ∀ t, r.byName interface name = some t → t = name := by
  cases r.member .method interface name type with
  | some t => exact iff_of_true rfl (.inl (Option.some_ne_none t))
  | none =>
    rw [Option.none_or, Option.getD_none]
    cases r.byName interface name with
    | none => simp only [Option.getD_none, reduceCtorEq, false_implies, implies_true, or_true]
    | some t => simp only [Option.getD_some, ne_eq, not_true_eq_false, Option.some.injEq,
        forall_eq', false_or]

/-- A call site with a method type takes the name found for the method, or else the name found by
name alone; so it follows every declaration of the method, unless only the latter finds one. -/
theorem callSite_eq_iff {bytes : Bytes} {out : Renamed} (remapped : r.remapClass bytes = .ok out)
    (parsed : ClassFile.parse bytes = .ok e) {i : ℕ} (calls : e.Calls i bootstrap name descriptor)
    (returned : returnedClass? descriptor = some interface)
    (typed : bootstrapType e.pool bootstrap e.attributes = .ok (some type)) :
    ∃ (e' : ClassFile) (new : String), e'.HeldIn out.bytes ∧
      e'.Calls i bootstrap new (r.index.mapDescriptor descriptor) ∧
      (∀ t, r.member .method interface name type = some t → new = t) ∧
      (r.member .method interface name type = none → new = (r.byName interface name).getD name) ∧
      ∀ (bytes' : Bytes) (out' : Renamed) (c : ClassFile) (j : ℕ) (access : UInt16),
        r.remapClass bytes' = .ok out' → ClassFile.parse bytes' = .ok c → out'.old = interface →
        Overridable access name → c.Declares j access name type →
        ∃ (c' : ClassFile) (declared : String), c'.HeldIn out'.bytes ∧
          c'.Declares j access declared (r.index.mapDescriptor type) ∧
          (new = declared ↔ r.member .method interface name type ≠ none ∨
            ∀ t, r.byName interface name = some t → t = name) := by
  obtain ⟨e', held, image, _⟩ := exists_classImage remapped parsed
  obtain ⟨found, resolved, calls'⟩ := image.calls calls
  obtain rfl := Except.ok.inj (resolved.symm.trans (callSite_of_type returned typed))
  refine ⟨e', _, held, calls', ?_, ?_, ?_⟩
  · intro t listed
    rw [listed, Option.some_or, Option.getD_some]
  · intro unlisted
    rw [unlisted, Option.none_or]
  · rintro bytes' out' c j access remapped' parsed' rfl overridable declared
    obtain ⟨c', held', image', _⟩ := exists_classImage remapped' parsed'
    refine ⟨c', _, held', image'.declares declared, ?_⟩
    rw [declaration_of_overridable overridable]
    exact callSite_eq_member_iff

open ClassFile in
theorem callSite_eq_iff_inherited :
    let r : Resolver := ⟨⟨"s", "t", Dict.ofList [("I", ⟨"I", [], [⟨"m", "()V", "n", "()V"⟩]⟩)], ∅⟩,
      Dict.ofList [("J", ⟨"J", some "O", ["I"]⟩)]⟩
    let j := blank.edited do init "J" (some "O"); addInterface "I"; addMethod 0x401 "m" "()V"
    let e := blank.edited do init "E" (some "O"); addCallSite "m" "()LJ;" "()V"
    parse e.write = .ok e ∧ e.Calls 10 0 "m" "()LJ;" ∧ returnedClass? "()LJ;" = some "J" ∧
      bootstrapType e.pool 0 e.attributes = .ok (some "()V") ∧ parse j.write = .ok j ∧
      Overridable 0x401 "m" ∧ j.Declares 0 0x401 "m" "()V" ∧
      ∃ (out out' : Renamed) (e' j' : ClassFile),
        r.remapClass e.write = .ok out ∧ r.remapClass j.write = .ok out' ∧
        e'.HeldIn out.bytes ∧ e'.Calls 10 0 "n" "()LJ;" ∧
        j'.HeldIn out'.bytes ∧ j'.Declares 0 0x401 "n" "()V" := by
  intro r j e
  have parsed : parse e.write = .ok e := by decide +kernel
  have calls : e.Calls 10 0 "m" "()LJ;" := ⟨9, by decide +kernel, by decide +kernel⟩
  have returned : returnedClass? "()LJ;" = some "J" := by decide +kernel
  have typed : bootstrapType e.pool 0 e.attributes = .ok (some "()V") := by decide +kernel
  have parsed' : parse j.write = .ok j := by decide +kernel
  have overridable : Overridable 0x401 "m" := ⟨by decide, by decide⟩
  have declared : j.Declares 0 0x401 "m" "()V" := by decide +kernel
  let e₁ := e.edited do
    let symbol ← onPool (ConstantPool.internNameAndType "n" "()LJ;")
    onPool (ConstantPool.replace 10 (.dynamic 18 0 symbol))
  let j₁ := j.edited do
    let n ← onPool (ConstantPool.internText "n")
    modify fun c => { c with methods := [⟨0x401, n, 8, []⟩] }
  have remapped : r.remapClass e.write = .ok ⟨"E", "E", e₁.write⟩ := by decide +kernel
  have remapped' : r.remapClass j.write = .ok ⟨"J", "J", j₁.write⟩ := by decide +kernel
  have found : r.member .method "J" "m" "()V" = some "n" := by decide +kernel
  have kept : r.index.mapDescriptor "()LJ;" = "()LJ;" := by decide +kernel
  obtain ⟨e', new, held, calls', same, _, follows⟩ :=
    callSite_eq_iff remapped parsed calls returned typed
  obtain ⟨j', name, held', declared', named⟩ :=
    follows _ _ j 0 0x401 remapped' parsed' rfl overridable declared
  obtain rfl := same "n" found
  obtain rfl := named.mpr (.inl (found ▸ Option.some_ne_none "n"))
  exact ⟨parsed, calls, returned, typed, parsed', overridable, declared, _, _, e', j', remapped,
    remapped', held, kept ▸ calls', held', declared'⟩

open ClassFile in
/-- The name is listed for a method of the same name and another type. -/
theorem callSite_ne_of_byName :
    let ix : MappingIndex := ⟨"intermediary", "named",
      Dict.ofList [("I", ⟨"I", [], [⟨"m", "(I)V", "t", "(I)V"⟩]⟩)], Dict.ofList [("I", "I")]⟩
    let j := blank.edited do
      init "J" (some "O"); addInterface "I"; addMethod 0x401 "m" "()V"
      modify fun c => { c with access := 0x601 }
    let e := blank.edited do init "C" (some "O"); addCallSite "m" "()LJ;" "()V"
    let e' := e.edited do
      let symbol ← onPool (ConstantPool.internNameAndType "t" "()LJ;")
      onPool (ConstantPool.replace 10 (.dynamic 18 0 symbol))
    let jar : List Entry := [⟨"J.class", j.write⟩, ⟨"C.class", e.write⟩]
    let m := Remapper.reading ix jar
    let r := m.resolver
    m.inputs = [jar] ∧ parse e.write = .ok e ∧ e.Calls 10 0 "m" "()LJ;" ∧
      returnedClass? "()LJ;" = some "J" ∧
      bootstrapType e.pool 0 e.attributes = .ok (some "()V") ∧
      r.member .method "J" "m" "()V" = none ∧ parse j.write = .ok j ∧ Overridable 0x401 "m" ∧
      j.Declares 0 0x401 "m" "()V" ∧ r.remapClass j.write = .ok ⟨"J", "J", j.write⟩ ∧
      r.remapClass e.write = .ok ⟨"C", "C", e'.write⟩ ∧ parse e'.write = .ok e' ∧
      e'.Calls 10 0 "t" "()LJ;" := by
  intro ix j e e' jar m r
  refine ⟨?_, ?_, ⟨9, ?_, ?_⟩, ?_, ?_, ?_, ?_, ⟨?_, ?_, ?_⟩, ?_, ?_, ?_, ?_, ⟨19, ?_, ?_⟩⟩
  all_goals decide +kernel

end Resolver

end ModRemap
