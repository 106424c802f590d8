import Mathlib
import ModRemap.ClassFile.Build
import ModRemap.Proofs.RemappedClass
import ModRemap.Proofs.SupertypeSearch
import ModRemap.Remap.Remapper

/-! The methods that a class declares and the members that it mentions, before and after remapping.
-/

namespace ModRemap

namespace ClassFile

def edited (c : ClassFile) (e : Edit Unit) : ClassFile := (e.run c).2

/-- Adds a reference to a member, which nothing uses yet. -/
def addReference (tag : UInt8) (owner name descriptor : String) : Edit UInt16 := do
  let owner ← onPool (ConstantPool.internClass owner)
  let symbol ← onPool (ConstantPool.internNameAndType name descriptor)
  onPool (ConstantPool.push (.memberRef tag owner symbol))

/-- The bytes are read as the class, or written of it. -/
def HeldIn (c : ClassFile) (bytes : Bytes) : Prop := parse bytes = .ok c ∨ bytes = c.write

theorem HeldIn.parse {c : ClassFile} {bytes : Bytes} (held : c.HeldIn bytes) (fits : c.Storable)
    (size : c.pool.size < 0x10000) :
    ∃ p, p.slots = c.pool.slots ∧ ClassFile.parse bytes = .ok { c with pool := p } := by
  rcases held with parsed | rfl
  · exact ⟨c.pool, rfl, parsed⟩
  · exact parse_write fits size

/-- What the method at a position says of itself. -/
def Declares (c : ClassFile) (i : ℕ) (access : UInt16) (name descriptor : String) : Prop :=
  ∃ m, c.methods[i]? = some m ∧ m.access = access ∧ c.pool.text m.name = .ok name ∧
    c.pool.text m.descriptor = .ok descriptor

instance (c : ClassFile) (i : ℕ) (access : UInt16) (name descriptor : String) :
    Decidable (c.Declares i access name descriptor) :=
  inferInstanceAs (Decidable (∃ m, c.methods[i]? = some m ∧ _))

/-- What the member reference in a slot refers to. -/
def Refers (c : ClassFile) (i : ℕ) (tag : UInt8) (owner name descriptor : String) : Prop :=
  ∃ o s, c.pool.slots[i]? = some (.memberRef tag o s) ∧ c.pool.className o = .ok owner ∧
    c.pool.nameAndType s = .ok (name, descriptor)

/-- What the call site in a slot calls. -/
def Calls (c : ClassFile) (i : ℕ) (bootstrap : UInt16) (name descriptor : String) : Prop :=
  ∃ s, c.pool.slots[i]? = some (.dynamic Constant.invokeDynamicTag bootstrap s) ∧
    c.pool.nameAndType s = .ok (name, descriptor)

end ClassFile

/-- A remapper that has read the classes of one jar. -/
def Remapper.reading (ix : MappingIndex) (jar : List Entry) : Remapper :=
  let fs : Files := { nodes := Dict.ofList [(["mod.jar"], .file (.archive jar))] }
  (({ index := ix } : Remapper).createTag.2.readInputs 0 fs "mod.jar").1

namespace Resolver

variable {r : Resolver} {bytes : Bytes} {out : Renamed} {c c' : ClassFile} {owner : String} {i : ℕ}

section Declarations

variable {access : UInt16} {name descriptor : String}

/-- The declaration takes no name from supertypes, and the table lists none for it. -/
def Stays (r : Resolver) (access : UInt16) (owner name descriptor : String) : Prop :=
  name = "<init>" ∨ name = "<clinit>" ∨
    access &&& privateOrStatic ≠ 0 ∧ r.index.mapMethod owner name descriptor = none

instance : Decidable (r.Stays access owner name descriptor) :=
  inferInstanceAs (Decidable (_ ∨ _ ∨ _ ∧ _))

theorem declaration_of_stays (stays : r.Stays access owner name descriptor) :
    r.declaration .method access owner name descriptor = name := by
  rcases stays with rfl | rfl | ⟨bound, unlisted⟩
  · rfl
  · rfl
  · simp only [declaration, bound, unlisted, ne_eq, not_false_eq_true, if_true, ite_self,
      Option.getD_none]

theorem declaration_of_not_stays (h : ¬ r.Stays access owner name descriptor) :
    r.declaration .method access owner name descriptor =
      (r.member .method owner name descriptor).getD name := by
  rw [Stays, not_or, not_or] at h
  have named : (name = "<init>" || name = "<clinit>") = false := by
    simp only [h.1, h.2.1, decide_false, Bool.or_false]
  simp only [declaration, named, Bool.false_eq_true, if_false]
  split_ifs with bound
  · cases listed : r.index.mapMethod owner name descriptor with
    | none => exact absurd ⟨bound, listed⟩ h.2.2
    | some t =>
      have found : r.member .method owner name descriptor = some t :=
        Hierarchy.search_of_self listed
      rw [found]
  · rfl

/-- A method that can be overridden, and override. -/
structure Overridable (access : UInt16) (name : String) : Prop where
  access : access &&& privateOrStatic = 0
  name : name ≠ "<init>" ∧ name ≠ "<clinit>"

theorem declaration_of_overridable (h : Overridable access name) :
    r.declaration .method access owner name descriptor =
      (r.member .method owner name descriptor).getD name := by
  refine declaration_of_not_stays fun stays => ?_
  rcases stays with init | clinit | ⟨bound, _⟩
  · exact h.name.1 init
  · exact h.name.2 clinit
  · exact bound h.access

theorem member_eq_none_iff {kind : MemberKind} : r.member kind owner name descriptor = none ↔
    ∀ c, r.hierarchy.Inherits owner c → r.index.mapMember kind c name descriptor = none :=
  Hierarchy.search_eq_none_iff

end Declarations

theorem exists_classImage (remapped : r.remapClass bytes = .ok out)
    (parsed : ClassFile.parse bytes = .ok c) :
    ∃ c', c'.HeldIn out.bytes ∧ r.ClassImage out.old c c' ∧ out.new = r.classConstant out.old := by
  obtain ⟨c', image, named, renamed, written⟩ := exists_image remapped parsed
  refine ⟨c', ?_, image, Except.ok.inj (renamed.symm.trans (image.name named))⟩
  rcases written with ⟨same, rfl⟩ | ⟨written, _⟩
  · exact .inl (same ▸ parsed)
  · exact .inr written

/-- A declared method is renamed as a declaration of its class, and nothing else of it changes. -/
theorem ClassImage.declares (image : r.ClassImage owner c c') {access : UInt16}
    {name descriptor : String} (declared : c.Declares i access name descriptor) :
    c'.Declares i access (r.declaration .method access owner name descriptor)
      (r.index.mapDescriptor descriptor) := by
  obtain ⟨m, listed, rfl, named, described⟩ := declared
  obtain ⟨bound, rfl⟩ := List.getElem?_eq_some_iff.mp listed
  have bound' : i < c'.methods.length := image.methods.length_eq ▸ bound
  have related : MemberImage r .method owner c'.pool c.methods[i] c'.methods[i] :=
    image.methods.get bound bound'
  obtain ⟨name', descriptor', hn, hd, renamed, redescribed⟩ := related.symbol
  obtain rfl := Except.ok.inj ((image.texts _ _ named).symm.trans hn)
  obtain rfl := Except.ok.inj ((image.texts _ _ described).symm.trans hd)
  exact ⟨_, List.getElem?_eq_getElem bound', related.access, renamed, redescribed⟩

theorem ClassImage.refers (image : r.ClassImage owner c c') {tag : UInt8}
    {target name descriptor : String} (refers : c.Refers i tag target name descriptor) :
    c'.Refers i tag (r.classConstant target) (r.reference tag target name descriptor)
      (r.index.mapDescriptor descriptor) := by
  obtain ⟨o, s, slot, owned, named⟩ := refers
  obtain ⟨k', slot', constant⟩ := image.constants i _ slot
  cases constant with
  | memberRef _ owned' named' renamed =>
    obtain rfl := Except.ok.inj (owned.symm.trans owned')
    obtain ⟨rfl, rfl⟩ := Prod.mk.inj (Except.ok.inj (named.symm.trans named'))
    exact ⟨o, _, slot', image.className owned, renamed⟩

theorem ClassImage.calls (image : r.ClassImage owner c c') {bootstrap : UInt16}
    {name descriptor : String} (calls : c.Calls i bootstrap name descriptor) :
    ∃ found, r.callSite c bootstrap name descriptor = .ok found ∧
      c'.Calls i bootstrap (found.getD name) (r.index.mapDescriptor descriptor) := by
  obtain ⟨s, slot, named⟩ := calls
  obtain ⟨k', slot', constant⟩ := image.constants i _ slot
  cases constant with
  | invokeDynamic named' resolved renamed =>
    obtain ⟨rfl, rfl⟩ := Prod.mk.inj (Except.ok.inj (named.symm.trans named'))
    exact ⟨_, resolved, _, slot', renamed⟩
  | dynamic plain => exact absurd rfl plain

end Resolver

end ModRemap
