import Mathlib
import ModRemap.Proofs.Encodable
import ModRemap.Proofs.RenamedSymbols

/-! What remapping leaves alone. Every slot and every table entry stays in its place, so that an
index means the same before and after; names are only added behind all slots. -/

namespace ModRemap

theorem ConstantPool.Evolves.size_le {p q : ConstantPool} (h : p.Evolves q) : p.size ≤ q.size := by
  have lengths := h.toList.1.length_eq
  rw [List.length_take, Array.length_toList, Array.length_toList] at lengths
  exact lengths.trans_le (min_le_right _ _)

/-- What stays of an attribute. Its name is looked up in the new pool `p`, which has every text of
the old one. -/
structure Attribute.Retained (p : ConstantPool) (a a' : Attribute) : Prop where
  name : a'.name = a.name
  info : a'.info = a.info ∨ p.text a.name = .ok "Signature" ∨ p.text a.name = .ok "Code"

/-- What stays of a field or method. -/
structure Member.Retained (p : ConstantPool) (m m' : Member) : Prop where
  access : m'.access = m.access
  attributes : List.Forall₂ (Attribute.Retained p) m.attributes m'.attributes

/-- The class `c'` has what `c` has in the same place. -/
structure ClassFile.Retains (c c' : ClassFile) : Prop where
  header : c'.minor = c.minor ∧ c'.major = c.major ∧ c'.access = c.access ∧
    c'.thisClass = c.thisClass ∧ c'.superclass = c.superclass ∧ c'.interfaces = c.interfaces
  slots : ∀ (i : ℕ) (k : Constant), c.pool.slots[i]? = some k →
    ∃ k', c'.pool.slots[i]? = some k' ∧ k.Repoints k'
  texts : ∀ i s, c.pool.text i = .ok s → c'.pool.text i = .ok s
  added : ∀ (i : ℕ) (k : Constant), c.pool.size ≤ i → c'.pool.slots[i]? = some k → k.Plain
  fields : List.Forall₂ (Member.Retained c'.pool) c.fields c'.fields
  methods : List.Forall₂ (Member.Retained c'.pool) c.methods c'.methods
  attributes : List.Forall₂ (Attribute.Retained c'.pool) c.attributes c'.attributes

namespace Resolver

variable {r : Resolver} {p : ConstantPool} {owner : String}

theorem AttributeImage.retained {a a' : Attribute} (h : AttributeImage r p a a') :
    a.Retained p a' := by
  cases h with
  | signature kind name => exact ⟨name, .inr (.inl kind)⟩
  | code kind => exact ⟨rfl, .inr (.inr kind)⟩
  | other => exact ⟨rfl, .inl rfl⟩

theorem MemberImage.retained {kind : MemberKind} {m m' : Member}
    (h : MemberImage r kind owner p m m') : m.Retained p m' :=
  ⟨h.access, h.attributes.imp fun _ _ => AttributeImage.retained⟩

theorem ClassImage.retains {c c' : ClassFile} (h : r.ClassImage owner c c') : c.Retains c' where
  header := h.header
  slots i k slot := by
    obtain ⟨k', slot', constant⟩ := h.constants i k slot
    exact ⟨k', slot', constant.repoints⟩
  texts := h.texts
  added := h.added
  fields := h.fields.imp fun _ _ => MemberImage.retained
  methods := h.methods.imp fun _ _ => MemberImage.retained
  attributes := h.attributes.imp fun _ _ => AttributeImage.retained

/-- The sizes that a remapped class has room for: those of its pool and of the texts added to it. -/
structure Fits (r : Resolver) (c : ClassFile) (owner : String) : Prop where
  size : c.pool.size ≤ 65535
  added : ∀ text, .utf8 text ∈ r.appended c owner → text.length ≤ 65535

/-- The class that is written has no other part that is too long. -/
theorem exists_written {bytes : Bytes} {out : Renamed} {c : ClassFile}
    (remapped : r.remapClass bytes = .ok out) (parsed : ClassFile.parse bytes = .ok c) :
    ∃ c', r.ClassImage out.old c c' ∧ c.name = .ok out.old ∧ c'.name = .ok out.new ∧
      (out.bytes = bytes ∧ c' = c ∨
        out.bytes = c'.write ∧ (c'.Encodable ↔ r.Fits c out.old)) := by
  obtain ⟨storable, _⟩ := ClassFile.storable_of_parse parsed
  obtain ⟨c', image, named, renamed, unchanged | ⟨written, evolves, known⟩⟩ :=
    exists_image remapped parsed
  · exact ⟨c', image, named, renamed, .inl unchanged⟩
  refine ⟨c', image, named, renamed, .inr ⟨written, ?_⟩⟩
  rw [ClassFile.encodable_iff]
  constructor
  · rintro ⟨fits, size⟩
    refine ⟨evolves.size_le.trans size, fun text added => ?_⟩
    rw [known] at added
    exact Nat.le_of_lt_succ (fits.pool.constants _ (List.mem_of_mem_drop added))
  · rintro ⟨size, fits⟩
    rw [known] at fits
    have pool : c'.pool.Storable :=
      evolves.storable storable.pool fun text added => Nat.lt_succ_of_le (fits text added)
    exact ⟨image.storable storable pool, evolves.bound.trans (max_le size le_rfl)⟩

/-- Where the class declares the size that its pool has, and the added texts have room, all else
stays as it is. -/
theorem retains_remapClass (r : Resolver) {bytes : Bytes} {out : Renamed} {c : ClassFile}
    (remapped : r.remapClass bytes = .ok out) (parsed : ClassFile.parse bytes = .ok c)
    (declared : (declaredSize bytes).toNat = c.pool.size)
    (fits : ∀ text, .utf8 text ∈ r.appended c out.old → text.length ≤ 65535) :
    ∃ c', ClassFile.parse out.bytes = .ok c' ∧ c.Retains c' := by
  have size : c.pool.size ≤ 65535 := declared ▸ Nat.le_of_lt_succ (declaredSize bytes).toNat_lt
  obtain ⟨c', image, _, _, unchanged | ⟨written, encodable⟩⟩ := exists_written remapped parsed
  · obtain ⟨same, rfl⟩ := unchanged
    exact ⟨c', same ▸ parsed, image.retains⟩
  · obtain ⟨p, slots, reads⟩ := ClassFile.parse_write_iff.mpr (encodable.mpr ⟨size, fits⟩)
    exact ⟨_, written ▸ reads, (image.congr slots).retains⟩

open ClassFile in
/-- A reference and a declaration take the name `n`, and a string constant and the name of the
source file stay. -/
theorem retains_remapClass_reference :
    let r : Resolver := ⟨⟨"s", "t",
      Dict.ofList [("a", ⟨"b", [], [⟨"m", "()V", "n", "()V"⟩]⟩)], ∅⟩, ∅⟩
    let c := blank.edited do
      init "a" none; discard (addReference 10 "a" "m" "()V"); addMethod 1 "m" "()V"
      let name ← onPool (ConstantPool.internText "SourceFile")
      discard (onPool (ConstantPool.push (.string 1)))
      modify fun c => { c with attributes := [⟨name, [0, 1]⟩] }
    let c₁ := c.edited do
      let b ← onPool (ConstantPool.internText "b")
      onPool (ConstantPool.replace 2 (.classRef b))
      let symbol ← onPool (ConstantPool.internNameAndType "n" "()V")
      onPool (ConstantPool.replace 6 (.memberRef 10 2 symbol))
      let n ← onPool (ConstantPool.internText "n")
      modify fun c => { c with methods := [⟨1, n, 4, []⟩] }
    r.remapClass c.write = .ok ⟨"a", "b", c₁.write⟩ ∧ parse c.write = .ok c ∧
      (declaredSize c.write).toNat = c.pool.size ∧
      (∀ text, .utf8 text ∈ r.appended c "a" → text.length ≤ 65535) ∧
      ∃ c', parse c₁.write = .ok c' ∧ c.Retains c' := by
  intro r c c₁
  have remapped : r.remapClass c.write = .ok ⟨"a", "b", c₁.write⟩ := by decide +kernel
  have parsed : parse c.write = .ok c := by decide +kernel
  have declared : (declaredSize c.write).toNat = c.pool.size := by decide +kernel
  have added : r.appended c "a" = [.utf8 [0x62], .utf8 [0x6E], .nameAndType 10 4] := by
    decide +kernel
  have fits (text : Bytes) (h : .utf8 text ∈ r.appended c "a") : text.length ≤ 65535 := by
    rw [added] at h
    simp only [List.mem_cons, Constant.utf8.injEq, List.not_mem_nil, or_false, reduceCtorEq] at h
    rcases h with rfl | rfl <;> decide
  have kept := retains_remapClass r remapped parsed declared fits
  exact ⟨remapped, parsed, declared, fits, kept⟩

end Resolver

end ModRemap
