import Mathlib
import ModRemap.Proofs.RenamedSymbols

/-! References to a method and its declaration. A reference takes whatever name its owner or a
supertype lists, also where the declaration is one that takes none from supertypes. -/

namespace ModRemap.Resolver

variable {r : Resolver} {owner name descriptor : String} {access : UInt16} {tag : UInt8}

theorem reference_of_array (array : isArray owner = true) :
    r.reference tag owner name descriptor = name := by
  rw [reference, if_pos array]

theorem reference_of_method (plain : isArray owner = false) (method : tag ≠ Constant.fieldTag) :
    r.reference tag owner name descriptor =
      (r.member .method owner name descriptor).getD name := by
  rw [reference, if_neg (Bool.eq_false_iff.mp plain), if_neg method]

theorem reference_eq_declaration_iff (plain : isArray owner = false)
    (method : tag ≠ Constant.fieldTag) :
    r.reference tag owner name descriptor =
        r.declaration .method access owner name descriptor ↔
      (r.Stays access owner name descriptor →
        ∀ t, r.member .method owner name descriptor = some t → t = name) := by
  rw [reference_of_method plain method]
  by_cases stays : r.Stays access owner name descriptor
  · rw [declaration_of_stays stays, forall_prop_of_true stays]
    cases r.member .method owner name descriptor with
    | none => simp only [Option.getD_none, reduceCtorEq, false_implies, implies_true]
    | some t => simp only [Option.getD_some, Option.some.injEq, forall_eq']
  · rw [declaration_of_not_stays stays]
    exact iff_of_true rfl fun h => absurd h stays

/-- A reference to a method keeps the descriptor of its declaration. It keeps the name too, except
where the name that it finds is one that the declaration does not take. -/
theorem reference_eq_iff {bytes bytes' : Bytes} {out out' : Renamed} {c e : ClassFile}
    (remapped : r.remapClass bytes = .ok out) (remapped' : r.remapClass bytes' = .ok out')
    (parsed : ClassFile.parse bytes = .ok c) (parsed' : ClassFile.parse bytes' = .ok e) {i j : ℕ}
    (declared : c.Declares j access name descriptor)
    (refers : e.Refers i tag out.old name descriptor) (method : tag ≠ Constant.fieldTag) :
    ∃ (c' e' : ClassFile) (new new' : String), c'.HeldIn out.bytes ∧ e'.HeldIn out'.bytes ∧
      c'.Declares j access new (r.index.mapDescriptor descriptor) ∧
      e'.Refers i tag out.new new' (r.index.mapDescriptor descriptor) ∧
      (isArray out.old = true → new' = name) ∧
      (isArray out.old = false → (new' = new ↔ (r.Stays access out.old name descriptor →
        ∀ t, r.member .method out.old name descriptor = some t → t = name))) := by
  obtain ⟨c', held, image, owned⟩ := exists_classImage remapped parsed
  obtain ⟨e', held', image', _⟩ := exists_classImage remapped' parsed'
  refine ⟨c', e', _, _, held, held', image.declares declared, owned ▸ image'.refers refers, ?_, ?_⟩
  · exact reference_of_array
  · intro plain
    exact reference_eq_declaration_iff plain method

open ClassFile in
/-- Where its own class lists a static method, a reference to it finds that name first. -/
theorem reference_eq_iff_static :
    let r : Resolver := ⟨⟨"s", "t", Dict.ofList [("C", ⟨"C", [], [⟨"m", "()V", "n", "()V"⟩]⟩),
      ("S", ⟨"S", [], [⟨"m", "()V", "t", "()V"⟩]⟩)], ∅⟩, Dict.ofList [("C", ⟨"C", some "S", []⟩)]⟩
    let c := blank.edited do
      init "C" (some "S"); addMethod 8 "m" "()V"; discard (addReference 10 "C" "m" "()V")
    parse c.write = .ok c ∧ c.Declares 0 8 "m" "()V" ∧ c.Refers 8 10 "C" "m" "()V" ∧
      10 ≠ Constant.fieldTag ∧ ∃ (out : Renamed) (c' e' : ClassFile) (name : String),
        r.remapClass c.write = .ok out ∧ c'.HeldIn out.bytes ∧ e'.HeldIn out.bytes ∧
        c'.Declares 0 8 name "()V" ∧ e'.Refers 8 10 "C" name "()V" := by
  intro r c
  have parsed : parse c.write = .ok c := by decide +kernel
  have declared : c.Declares 0 8 "m" "()V" := by decide +kernel
  have refers : c.Refers 8 10 "C" "m" "()V" :=
    ⟨2, 7, by decide +kernel, by decide +kernel, by decide +kernel⟩
  have method : 10 ≠ Constant.fieldTag := by decide
  let c₁ := c.edited do
    let n ← onPool (ConstantPool.internText "n")
    let symbol ← onPool (ConstantPool.internNameAndType "n" "()V")
    onPool (ConstantPool.replace 8 (.memberRef 10 2 symbol))
    modify fun c => { c with methods := [⟨8, n, 6, []⟩] }
  have remapped : r.remapClass c.write = .ok ⟨"C", "C", c₁.write⟩ := by decide +kernel
  obtain ⟨c', e', new, new', held, held', hc, he, -, same⟩ :=
    reference_eq_iff remapped remapped parsed parsed declared refers method
  have free : ¬ r.Stays 8 "C" "m" "()V" := by decide +kernel
  obtain rfl := (same (by decide)).mpr fun stays => absurd stays free
  exact ⟨parsed, declared, refers, method, _, c', e', _, remapped, held, held', hc, he⟩

open ClassFile in
/-- The superclass lists the name, and the static method of the class does not override it. -/
theorem reference_ne_of_static :
    let ix : MappingIndex := ⟨"intermediary", "named",
      Dict.ofList [("S", ⟨"S", [], [⟨"m", "()V", "t", "()V"⟩]⟩)], Dict.ofList [("S", "S")]⟩
    let c := blank.edited do
      init "C" (some "S"); addMethod 8 "m" "()V"; discard (addReference 10 "C" "m" "()V")
    let c' := c.edited do
      let symbol ← onPool (ConstantPool.internNameAndType "t" "()V")
      onPool (ConstantPool.replace 8 (.memberRef 10 2 symbol))
    let m := Remapper.reading ix [⟨"C.class", c.write⟩]
    let r := m.resolver
    m.inputs = [[⟨"C.class", c.write⟩]] ∧ parse c.write = .ok c ∧ c.Declares 0 8 "m" "()V" ∧
      c.Refers 8 10 "C" "m" "()V" ∧ r.remapClass c.write = .ok ⟨"C", "C", c'.write⟩ ∧
      parse c'.write = .ok c' ∧ c'.Declares 0 8 "m" "()V" ∧ c'.Refers 8 10 "C" "t" "()V" := by
  intro ix c c' m r
  refine ⟨?_, ?_, ?_, ⟨2, 7, ?_, ?_, ?_⟩, ?_, ?_, ?_, ⟨2, 10, ?_, ?_, ?_⟩⟩
  all_goals decide +kernel

end ModRemap.Resolver
