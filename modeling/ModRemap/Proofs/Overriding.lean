import Mathlib
import ModRemap.Proofs.RenamedSymbols

/-! A method and one that it overrides. Names are looked for in supertypes only, so that a name
found for the overridden method is found for the overriding one, but not the other way round. -/

namespace ModRemap.Resolver

variable {r : Resolver} {name descriptor : String}

/-- Any two classes that one class inherits from agree on the methods that both list. -/
def Agreeing (r : Resolver) : Prop :=
  ∀ sub a b name descriptor t u, r.hierarchy.Inherits sub a → r.hierarchy.Inherits sub b →
    r.index.mapMethod a name descriptor = some t → r.index.mapMethod b name descriptor = some u →
      t = u

theorem agreeing_of_single {only : String} (single : ∀ c ∈ r.index.classes.keys, c = only) :
    r.Agreeing := by
  have listing {c name descriptor t : String}
      (listed : r.index.mapMethod c name descriptor = some t) : c = only := by
    obtain ⟨_, found, _⟩ := Option.map_eq_some_iff.mp listed
    obtain ⟨entry, known, _⟩ := Option.bind_eq_some_iff.mp found
    exact single c (List.mem_map_of_mem ((Dict.get?_eq_some_iff _ _ _).mp known))
  intro sub a b name descriptor t u _ _ ha hb
  obtain rfl := (listing ha).trans (listing hb).symm
  exact Option.some.inj (ha.symm.trans hb)

variable {sub super : String}

theorem Agreeing.member_eq_some (agreeing : r.Agreeing) {c t : String}
    (inherits : r.hierarchy.Inherits sub c)
    (listed : r.index.mapMethod c name descriptor = some t) :
    r.member .method sub name descriptor = some t := by
  cases found : r.member .method sub name descriptor with
  | none => exact nomatch listed.symm.trans (member_eq_none_iff.mp found c inherits)
  | some u =>
    obtain ⟨d, above, listed'⟩ := Hierarchy.exists_of_search found
    rw [agreeing sub d c name descriptor u t above inherits listed' listed]

/-- Two names that are found from a class and from one it inherits from differ only where the second
search misses what the first one finds. -/
theorem Agreeing.member_getD_eq_iff (agreeing : r.Agreeing)
    (inherits : r.hierarchy.Inherits sub super) :
    (r.member .method sub name descriptor).getD name =
        (r.member .method super name descriptor).getD name ↔
      (∃ c t, r.hierarchy.Inherits super c ∧ r.index.mapMethod c name descriptor = some t) ∨
        ∀ c t, r.hierarchy.Inherits sub c → r.index.mapMethod c name descriptor = some t →
          t = name := by
  cases found : r.member .method super name descriptor with
  | some t =>
    obtain ⟨c, above, listed⟩ := Hierarchy.exists_of_search found
    rw [agreeing.member_eq_some (inherits.trans above) listed]
    exact ⟨fun _ => .inl ⟨c, t, above, listed⟩, fun _ => rfl⟩
  | none =>
    -- Only supertypes of `sub` that are none of `super` can list the method now.
    rw [Option.getD_none]
    constructor
    · intro same
      refine .inr fun c t above listed => ?_
      rwa [agreeing.member_eq_some above listed, Option.getD_some] at same
    · rintro (⟨c, t, above, listed⟩ | unchanged)
      · exact nomatch listed.symm.trans (member_eq_none_iff.mp found c above)
      · cases found' : r.member .method sub name descriptor with
        | none => rfl
        | some t =>
          obtain ⟨c, above, listed⟩ := Hierarchy.exists_of_search found'
          exact unchanged c t above listed

/-- A method keeps overriding another where the class of the overridden one, or a supertype of that
class, lists it, and where whatever is listed for the overriding one is the old name. -/
theorem overriding_eq_iff (agreeing : r.Agreeing) {bytes bytes' : Bytes} {out out' : Renamed}
    {c d : ClassFile} (remapped : r.remapClass bytes = .ok out)
    (remapped' : r.remapClass bytes' = .ok out') (parsed : ClassFile.parse bytes = .ok c)
    (parsed' : ClassFile.parse bytes' = .ok d)
    (inherits : r.hierarchy.Inherits out'.old out.old) {i j : ℕ} {access access' : UInt16}
    (overridable : Overridable access name) (overriding : Overridable access' name)
    (declared : c.Declares i access name descriptor)
    (declared' : d.Declares j access' name descriptor) :
    ∃ (c' d' : ClassFile) (new new' : String), c'.HeldIn out.bytes ∧ d'.HeldIn out'.bytes ∧
      c'.Declares i access new (r.index.mapDescriptor descriptor) ∧
      d'.Declares j access' new' (r.index.mapDescriptor descriptor) ∧
      (new' = new ↔
        (∃ x t, r.hierarchy.Inherits out.old x ∧
          r.index.mapMethod x name descriptor = some t) ∨
        ∀ x t, r.hierarchy.Inherits out'.old x →
          r.index.mapMethod x name descriptor = some t → t = name) := by
  obtain ⟨c', held, image, _⟩ := exists_classImage remapped parsed
  obtain ⟨d', held', image', _⟩ := exists_classImage remapped' parsed'
  refine ⟨c', d', _, _, held, held', image.declares declared, image'.declares declared', ?_⟩
  rw [declaration_of_overridable overridable, declaration_of_overridable overriding]
  exact agreeing.member_getD_eq_iff inherits

open ClassFile in
theorem overriding_eq_iff_listed :
    let r : Resolver := ⟨⟨"s", "t", Dict.ofList [("I", ⟨"I", [], [⟨"m", "()V", "n", "()V"⟩]⟩)], ∅⟩,
      Dict.ofList [("C", ⟨"C", none, ["I"]⟩), ("D", ⟨"D", some "C", []⟩)]⟩
    let c := blank.edited do init "C" none; addInterface "I"; addMethod 1 "m" "()V"
    let d := blank.edited do init "D" (some "C"); addMethod 1 "m" "()V"
    r.Agreeing ∧ parse c.write = .ok c ∧ parse d.write = .ok d ∧
      r.hierarchy.Inherits "D" "C" ∧ Overridable 1 "m" ∧
      c.Declares 0 1 "m" "()V" ∧ d.Declares 0 1 "m" "()V" ∧
      ∃ (out out' : Renamed) (c' d' : ClassFile) (name : String),
        r.remapClass c.write = .ok out ∧ r.remapClass d.write = .ok out' ∧
        c'.HeldIn out.bytes ∧ d'.HeldIn out'.bytes ∧
        c'.Declares 0 1 name "()V" ∧ d'.Declares 0 1 name "()V" := by
  intro r c d
  have single : ∀ a ∈ r.index.classes.keys, a = "I" := by decide
  have agreeing : r.Agreeing := agreeing_of_single single
  have parsed : parse c.write = .ok c := by decide +kernel
  have parsed' : parse d.write = .ok d := by decide +kernel
  have inherits : r.hierarchy.Inherits "D" "C" := .single (by decide +kernel)
  have overridable : Overridable 1 "m" := ⟨by decide, by decide⟩
  have declared : c.Declares 0 1 "m" "()V" := by decide +kernel
  have declared' : d.Declares 0 1 "m" "()V" := by decide +kernel
  let renamed : ClassFile.Edit Unit := do
    let n ← onPool (ConstantPool.internText "n")
    modify fun c => { c with methods := [⟨1, n, 6, []⟩] }
  have remapped : r.remapClass c.write = .ok ⟨"C", "C", (c.edited renamed).write⟩ := by
    decide +kernel
  have remapped' : r.remapClass d.write = .ok ⟨"D", "D", (d.edited renamed).write⟩ := by
    decide +kernel
  obtain ⟨c', d', new, new', held, held', hc, hd, same⟩ := overriding_eq_iff agreeing remapped
    remapped' parsed parsed' inherits overridable overridable declared declared'
  have listed : r.index.mapMethod "I" "m" "()V" = some "n" := by decide +kernel
  have above : r.hierarchy.Inherits "C" "I" := .single (by decide +kernel)
  obtain rfl := same.mpr (.inl ⟨"I", "n", above, listed⟩)
  exact ⟨agreeing, parsed, parsed', inherits, overridable, declared, declared', _, _, c', d', new',
    remapped, remapped', held, held', hc, hd⟩

open ClassFile in
/-- The name is listed for an interface that only the overriding class implements. -/
theorem overriding_ne_of_interface :
    let ix : MappingIndex := ⟨"intermediary", "named",
      Dict.ofList [("I", ⟨"I", [], [⟨"m", "()V", "t", "()V"⟩]⟩)], Dict.ofList [("I", "I")]⟩
    let c := blank.edited do init "C" (some "O"); addMethod 1 "m" "()V"
    let d := blank.edited do init "D" (some "C"); addInterface "I"; addMethod 1 "m" "()V"
    let d' := d.edited do
      let t ← onPool (ConstantPool.internText "t")
      modify fun c => { c with methods := [⟨1, t, 8, []⟩] }
    let jar : List Entry := [⟨"C.class", c.write⟩, ⟨"D.class", d.write⟩]
    let m := Remapper.reading ix jar
    let r := m.resolver
    m.inputs = [jar] ∧ r.hierarchy.Acyclic ∧ r.Agreeing ∧ r.hierarchy.Inherits "D" "C" ∧
      parse c.write = .ok c ∧ parse d.write = .ok d ∧ Overridable 1 "m" ∧
      c.Declares 0 1 "m" "()V" ∧ d.Declares 0 1 "m" "()V" ∧
      r.remapClass c.write = .ok ⟨"C", "C", c.write⟩ ∧
      r.remapClass d.write = .ok ⟨"D", "D", d'.write⟩ ∧ parse d'.write = .ok d' ∧
      d'.Declares 0 1 "t" "()V" := by
  intro ix c d d' jar m r
  have acyclic : r.hierarchy.Acyclic :=
    Hierarchy.acyclic_of_rank (fun a => if a = "D" then 2 else if a = "C" then 1 else 0)
      (by decide +kernel)
  have single : ∀ a ∈ r.index.classes.keys, a = "I" := by decide +kernel
  refine ⟨?_, acyclic, agreeing_of_single single, .single ?_, ?_, ?_, ⟨?_, ?_, ?_⟩, ?_⟩
  all_goals decide +kernel

end ModRemap.Resolver
