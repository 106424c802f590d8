import Mathlib
import ModRemap.Proofs.ClassFileCodec
import ModRemap.Proofs.ClassImage

/-! A remapped class reads back as the image of the class it was made from. -/

namespace ModRemap.Resolver

variable {r : Resolver} {bytes : Bytes} {out : Renamed} {c c' : ClassFile}

theorem remapClass_eq_ok : r.remapClass bytes = .ok out ↔ ∃ c c' d,
    ClassFile.parse bytes = .ok c ∧ c.name = .ok out.old ∧
      r.remapTables c out.old ⟨c.pool, false⟩ = .ok (c', d) ∧
      ClassFile.name { c' with pool := d.pool } = .ok out.new ∧
      out.bytes = if d.changed then ClassFile.write { c' with pool := d.pool } else bytes := by
  constructor
  · intro h
    obtain ⟨c, parsed, h⟩ := except_bind_eq_ok.mp h
    obtain ⟨old, named, h⟩ := except_bind_eq_ok.mp h
    obtain ⟨⟨c', d⟩, tables, h⟩ := except_bind_eq_ok.mp h
    obtain ⟨new, renamed, h⟩ := except_bind_eq_ok.mp h
    obtain rfl := Except.ok.inj h
    exact ⟨c, c', d, parsed, named, tables, renamed, rfl⟩
  · rintro ⟨c, c', d, parsed, named, tables, renamed, written⟩
    refine except_bind_eq_ok.mpr ⟨c, parsed, except_bind_eq_ok.mpr ⟨_, named,
      except_bind_eq_ok.mpr ⟨(c', d), tables, except_bind_eq_ok.mpr ⟨_, renamed, ?_⟩⟩⟩⟩
    exact congrArg Except.ok (by rw [← written])

/-- The constants that remapping adds to the pool of a class. -/
def appended (r : Resolver) (c : ClassFile) (owner : String) : List Constant :=
  match r.remapTables c owner ⟨c.pool, false⟩ with
  | .ok (_, d) => d.pool.slots.toList.drop c.pool.size
  | .error _ => []

theorem attributes_storable {p : ConstantPool} {as bs : List Attribute}
    (image : List.Forall₂ (AttributeImage r p) as bs) (fits : ∀ a ∈ as, a.Storable) :
    ∀ b ∈ bs, b.Storable := by
  intro b hb
  obtain ⟨a, ha, related⟩ := exists_of_mem_right image hb
  exact lt_of_le_of_lt related.length_le (fits a ha)

theorem members_storable {kind : MemberKind} {owner : String} {p : ConstantPool}
    {ms ns : List Member} (image : List.Forall₂ (MemberImage r kind owner p) ms ns)
    (fits : ∀ m ∈ ms, m.Storable) : ∀ n ∈ ns, n.Storable := by
  intro n hn
  obtain ⟨m, hm, related⟩ := exists_of_mem_right image hn
  refine ⟨?_, attributes_storable related.attributes (fits m hm).attributes⟩
  rw [← related.attributes.length_eq]
  exact (fits m hm).count

theorem ClassImage.storable {owner : String} (image : r.ClassImage owner c c')
    (fits : c.Storable) (pool : c'.pool.Storable) : c'.Storable where
  pool := pool
  interfaces := by
    obtain ⟨_, _, _, _, _, same⟩ := image.header
    exact same ▸ fits.interfaces
  fieldCount := image.fields.length_eq ▸ fits.fieldCount
  fields := members_storable image.fields fits.fields
  methodCount := image.methods.length_eq ▸ fits.methodCount
  methods := members_storable image.methods fits.methods
  attributeCount := image.attributes.length_eq ▸ fits.attributeCount
  attributes := attributes_storable image.attributes fits.attributes

theorem ClassImage.className {owner : String} (image : r.ClassImage owner c c') {i : UInt16}
    {s : String} (named : c.pool.className i = .ok s) :
    c'.pool.className i = .ok (r.classConstant s) := by
  obtain ⟨n, slot, text⟩ := ConstantPool.className_eq_ok.mp named
  obtain ⟨k', slot', constant⟩ := image.constants _ _ slot
  cases constant with
  | classRef text' renamed =>
    rw [Except.ok.inj (text.symm.trans text')]
    exact ConstantPool.className_eq_ok.mpr ⟨_, slot', renamed⟩

/-- The name of a class is one of its constants, and is renamed with it. -/
theorem ClassImage.name {owner : String} (image : r.ClassImage owner c c') {old : String}
    (named : c.name = .ok old) : c'.name = .ok (r.classConstant old) := by
  obtain ⟨_, _, _, same, _⟩ := image.header
  exact (congrArg c'.pool.className same).trans (image.className named)

/-- An image depends on the slots of its pool alone. -/
theorem ClassImage.congr {owner : String} (image : r.ClassImage owner c c') {p : ConstantPool}
    (slots : p.slots = c'.pool.slots) : r.ClassImage owner c { c' with pool := p } := by
  have evolves : c'.pool.Evolves p := .of_slots_eq slots.symm
  refine ⟨image.header, fun i s h => evolves.text (image.texts i s h), fun i k hk => ?_,
    fun i k outside slot => image.added i k outside (slots ▸ slot),
    lasting_memberImage.forall₂ _ _ _ _ evolves image.fields,
    lasting_memberImage.forall₂ _ _ _ _ evolves image.methods,
    lasting_attributeImage.forall₂ _ _ _ _ evolves image.attributes⟩
  obtain ⟨k', slot, constant⟩ := image.constants i k hk
  exact ⟨k', slots ▸ slot, constant.mono evolves⟩

/-- The class that is handed out, with what its pool has more than the old one. -/
theorem exists_image (remapped : r.remapClass bytes = .ok out)
    (parsed : ClassFile.parse bytes = .ok c) :
    ∃ c', r.ClassImage out.old c c' ∧ c.name = .ok out.old ∧ c'.name = .ok out.new ∧
      (out.bytes = bytes ∧ c' = c ∨ out.bytes = c'.write ∧ c.pool.Evolves c'.pool ∧
        r.appended c out.old = c'.pool.slots.toList.drop c.pool.size) := by
  obtain ⟨c₀, c₁, d, parsed₀, named, tables, renamed, written⟩ := remapClass_eq_ok.mp remapped
  obtain rfl := Except.ok.inj (parsed.symm.trans parsed₀)
  obtain ⟨storable, sound⟩ := ClassFile.storable_of_parse parsed
  obtain ⟨step, still, image⟩ := remapTables_spec storable.pool sound tables
  refine ⟨{ c₁ with pool := d.pool }, image, named, renamed, ?_⟩
  cases marked : d.changed with
  | false =>
    left
    rw [marked, if_neg Bool.false_ne_true] at written
    obtain rfl := step.still marked
    obtain rfl := still marked
    exact ⟨written, rfl⟩
  | true =>
    right
    rw [marked, if_pos rfl] at written
    exact ⟨written, step.evolves, by rw [appended, tables]⟩

/-- The size that a class file declares for its pool. -/
def declaredSize (bytes : Bytes) : UInt16 := Reader.word (bytes.getD 8 0) (bytes.getD 9 0)

end ModRemap.Resolver
