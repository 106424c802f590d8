import Mathlib
import ModRemap.Proofs.ClassFileBytes

/-! Classes within the sizes of a class file. They are the ones that are read back as they were
written. -/

namespace ModRemap

namespace Constant

/-- A slot is unusable just where the one before it is wide; `k` is the constant in front. -/
theorem Laid.unusable_iff {ks : List Constant} (laid : Laid ks) {k : Constant}
    (width : k.isWide = false) (i : ℕ) :
    ks[i]? = some .unusable ↔ ∃ l, (k :: ks)[i]? = some l ∧ l.isWide = true := by
  induction laid generalizing k i with
  | nil =>
    cases i with
    | zero => simp [width]
    | succ i => simp
  | narrow width' usable _ ih =>
    cases i with
    | zero => simp [width, usable]
    | succ i => simpa only [List.getElem?_cons_succ] using ih width' i
  | @wide l ls width' _ ih =>
    have usable : l ≠ .unusable := by
      rintro rfl
      exact nomatch width'
    match i with
    | 0 => simp [width, usable]
    | 1 => simp [width']
    | i + 2 => simpa only [List.getElem?_cons_succ] using ih (k := .unusable) rfl i

theorem laid_of_unusable_iff (ks : List Constant) {k : Constant} (width : k.isWide = false)
    (h : ∀ i : ℕ, ks[i]? = some .unusable ↔ ∃ l, (k :: ks)[i]? = some l ∧ l.isWide = true) :
    Laid ks := by
  match ks with
  | [] => exact .nil
  | l :: ls =>
    have usable : l ≠ .unusable := by
      rintro rfl
      obtain ⟨_, found, wide⟩ := (h 0).mp rfl
      obtain rfl := Option.some.inj found
      exact nomatch width.symm.trans wide
    cases width' : l.isWide with
    | false => exact .narrow width' usable (laid_of_unusable_iff ls width' fun i => h (i + 1))
    | true =>
      have second : ls[0]? = some .unusable := (h 1).mpr ⟨l, rfl, width'⟩
      match ls with
      | m :: ms =>
        obtain rfl := Option.some.inj second
        exact .wide width' (laid_of_unusable_iff ms (k := .unusable) rfl fun i => h (i + 2))

instance (k : Constant) : Decidable k.Storable :=
  match k with
  | .utf8 bytes => inferInstanceAs (Decidable (bytes.length < 0x10000))
  | .memberRef tag _ _ => inferInstanceAs (Decidable (tag = 9 ∨ tag = 10 ∨ tag = 11))
  | .dynamic tag _ _ => inferInstanceAs (Decidable (tag = 17 ∨ tag = 18))
  | .integer _ | .float _ | .long _ | .double _ | .classRef _ | .string _ | .nameAndType _ _
  | .methodHandle _ _ | .methodType _ | .moduleRef _ | .packageRef _ | .unusable => isTrue trivial

end Constant

namespace ConstantPool

/-- A pool that is read back: its slots are unusable in front and behind wide constants only. -/
structure Regular (p : ConstantPool) : Prop where
  first : p.slots[0]? = some .unusable
  unusable : ∀ i, p.slots[i + 1]? = some .unusable ↔
    ∃ k, p.slots[i]? = some k ∧ k.isWide = true
  constants : ∀ k ∈ p.slots.toList, k.Storable
  size : p.size ≤ 65535

theorem regular_iff {p : ConstantPool} : p.Regular ↔ p.Storable ∧ p.size ≤ 65535 := by
  constructor
  · intro h
    refine ⟨⟨?_, h.constants⟩, h.size⟩
    have first := h.first
    rw [← Array.getElem?_toList] at first
    rcases front : p.slots.toList with _ | ⟨k, ks⟩
    · rw [front] at first
      exact nomatch first
    · rw [front] at first
      obtain rfl := Option.some.inj first
      refine ⟨ks, rfl, Constant.laid_of_unusable_iff ks (k := .unusable) rfl fun i => ?_⟩
      simpa only [← Array.getElem?_toList, front, List.getElem?_cons_succ] using h.unusable i
  · rintro ⟨⟨⟨ks, front, laid⟩, constants⟩, size⟩
    refine ⟨?_, fun i => ?_, constants, size⟩
    · rw [← Array.getElem?_toList, front, List.getElem?_cons_zero]
    · rw [← Array.getElem?_toList, ← Array.getElem?_toList, front, List.getElem?_cons_succ]
      exact laid.unusable_iff (k := .unusable) rfl i

theorem Storable.of_slots_eq {p q : ConstantPool} (h : p.Storable) (slots : p.slots = q.slots) :
    q.Storable :=
  ⟨slots ▸ h.laid, slots ▸ h.constants⟩

end ConstantPool

namespace ClassFile

/-- The attributes of a class and of its members. -/
def allAttributes (c : ClassFile) : List Attribute :=
  c.attributes ++ (c.fields ++ c.methods).flatMap Member.attributes

/-- No list of a class is longer than its 16-bit length can say. -/
structure Counted (c : ClassFile) : Prop where
  interfaces : c.interfaces.length ≤ 65535
  fields : c.fields.length ≤ 65535
  methods : c.methods.length ≤ 65535
  attributes : c.attributes.length ≤ 65535
  members : ∀ m ∈ c.fields ++ c.methods, m.attributes.length ≤ 65535

structure Encodable (c : ClassFile) : Prop where
  pool : c.pool.Regular
  counts : c.Counted
  bodies : ∀ a ∈ c.allAttributes, a.info.length < 2 ^ 32

theorem encodable_iff {c : ClassFile} : c.Encodable ↔ c.Storable ∧ c.pool.size ≤ 65535 := by
  have members (ms : List Member) : (∀ m ∈ ms, m.Storable) ↔
      (∀ m ∈ ms, m.attributes.length ≤ 65535) ∧
        ∀ a ∈ ms.flatMap Member.attributes, a.info.length < 2 ^ 32 := by
    simp only [List.mem_flatMap]
    constructor
    · intro h
      refine ⟨fun m hm => Nat.le_of_lt_succ (h m hm).count, ?_⟩
      rintro a ⟨m, hm, ha⟩
      exact (h m hm).attributes a ha
    · rintro ⟨counts, bodies⟩ m hm
      exact ⟨Nat.lt_succ_of_le (counts m hm), fun a ha => bodies a ⟨m, hm, ha⟩⟩
  constructor
  · intro h
    obtain ⟨pool, size⟩ := ConstantPool.regular_iff.mp h.pool
    have counts := h.counts
    have all : ∀ m ∈ c.fields ++ c.methods, m.Storable :=
      (members _).mpr ⟨counts.members, fun a ha => h.bodies a (List.mem_append_right _ ha)⟩
    refine ⟨⟨pool, Nat.lt_succ_of_le counts.interfaces, Nat.lt_succ_of_le counts.fields,
      fun m hm => all m (List.mem_append_left _ hm), Nat.lt_succ_of_le counts.methods,
      fun m hm => all m (List.mem_append_right _ hm), Nat.lt_succ_of_le counts.attributes,
      fun a ha => h.bodies a (List.mem_append_left _ ha)⟩, size⟩
  · rintro ⟨h, size⟩
    have all : ∀ m ∈ c.fields ++ c.methods, m.Storable := by
      intro m hm
      exact (List.mem_append.mp hm).elim (h.fields m) (h.methods m)
    obtain ⟨counts, bodies⟩ := (members _).mp all
    refine ⟨ConstantPool.regular_iff.mpr ⟨h.pool, size⟩,
      ⟨Nat.le_of_lt_succ h.interfaces, Nat.le_of_lt_succ h.fieldCount,
        Nat.le_of_lt_succ h.methodCount, Nat.le_of_lt_succ h.attributeCount, counts⟩, ?_⟩
    intro a ha
    exact (List.mem_append.mp ha).elim (h.attributes a) (bodies a)

/-- What a class writes is read back just where nothing of it is too long. -/
theorem parse_write_iff {c : ClassFile} :
    (∃ p, p.slots = c.pool.slots ∧ parse c.write = .ok { c with pool := p }) ↔ c.Encodable := by
  rw [encodable_iff]
  constructor
  · rintro ⟨p, slots, parsed⟩
    obtain ⟨fits, sound⟩ := storable_of_parse parsed
    refine ⟨⟨fits.pool.of_slots_eq slots, fits.interfaces, fits.fieldCount, fits.fields,
      fits.methodCount, fits.methods, fits.attributeCount, fits.attributes⟩, ?_⟩
    -- One slot too many would be written as no slot at all.
    obtain ⟨count, fills, bytes⟩ := bytes_of_parse parsed
    have front : c.opening.length = 8 := rfl
    have declared : count = UInt16.ofNat c.pool.size := by
      have same := congrArg Resolver.declaredSize bytes
      rw [write_eq, declaredSize_append front] at same
      exact same.trans (declaredSize_append front count) |>.symm
    have size : p.size = c.pool.size := congrArg Array.size slots
    have bound : p.size ≤ 0x10000 := sound.size
    have value : count.toNat = c.pool.size % 0x10000 := by rw [declared, UInt16.toNat_ofNat']
    rcases fills with filled | ⟨filled, _⟩
    · change p.size = _ at filled
      omega
    · change p.size = _ at filled
      omega
  · rintro ⟨fits, size⟩
    exact parse_write fits (Nat.lt_succ_of_le size)

end ClassFile

end ModRemap
