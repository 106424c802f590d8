import Mathlib
import ModRemap.Proofs.ClassFileCodec
import ModRemap.Proofs.ModifiedUtf8

/-! A pool while it is edited. Texts, and pairs of a name and a descriptor, stay where they are, and
nothing else is ever added; other constants may be pointed at another name. -/

namespace ModRemap

namespace Constant

/-- A text, or a name with its descriptor. -/
def Plain : Constant → Prop
  | .utf8 _ => True
  | .nameAndType _ _ => True
  | _ => False

/-- The same constant, or one of its kind that names something else. -/
inductive Repoints : Constant → Constant → Prop
  | same (k : Constant) : Repoints k k
  | classRef (name name' : UInt16) : Repoints (.classRef name) (.classRef name')
  | memberRef (tag : UInt8) (owner symbol symbol' : UInt16) :
      Repoints (.memberRef tag owner symbol) (.memberRef tag owner symbol')
  | dynamic (tag : UInt8) (bootstrap symbol symbol' : UInt16) :
      Repoints (.dynamic tag bootstrap symbol) (.dynamic tag bootstrap symbol')
  | methodType (descriptor descriptor' : UInt16) :
      Repoints (.methodType descriptor) (.methodType descriptor')

theorem Repoints.trans {k l m : Constant} (h : Repoints k l) (h' : Repoints l m) :
    Repoints k m := by
  cases h with
  | same => exact h'
  | classRef => cases h' <;> constructor
  | memberRef => cases h' <;> constructor
  | dynamic => cases h' <;> constructor
  | methodType => cases h' <;> constructor

theorem Repoints.eq_of_plain {k l : Constant} (h : Repoints k l) (plain : k.Plain) : l = k := by
  cases h with
  | same => rfl
  | _ => exact plain.elim

theorem Repoints.isWide_eq {k l : Constant} (h : Repoints k l) : l.isWide = k.isWide := by
  cases h <;> rfl

theorem Repoints.unusable_iff {k l : Constant} (h : Repoints k l) :
    l = .unusable ↔ k = .unusable := by
  cases h with
  | same => rfl
  | _ => exact ⟨nofun, nofun⟩

theorem Repoints.storable {k l : Constant} (h : Repoints k l) (fits : k.Storable) : l.Storable := by
  cases h <;> exact fits

theorem Laid.repoint {ks ls : List Constant} (laid : Laid ks)
    (h : List.Forall₂ Repoints ks ls) : Laid ls := by
  induction laid generalizing ls with
  | nil =>
    cases h
    exact .nil
  | narrow width usable _ ih =>
    obtain _ | ⟨first, rest⟩ := h
    exact .narrow (first.isWide_eq.trans width) (first.unusable_iff.not.mpr usable) (ih rest)
  | wide width _ ih =>
    obtain _ | ⟨first, _ | ⟨second, rest⟩⟩ := h
    cases second
    exact .wide (first.isWide_eq.trans width) (ih rest)

theorem laid_of_plain {ks : List Constant} (h : ∀ k ∈ ks, k.Plain) : Laid ks := by
  induction ks with
  | nil => exact .nil
  | cons k ks ih =>
    obtain ⟨first, rest⟩ := List.forall_mem_cons.mp h
    have width : k.isWide = false := by
      cases k <;> first | rfl | exact first.elim
    have usable : k ≠ .unusable := by
      rintro rfl
      exact first
    exact .narrow width usable (ih rest)

end Constant

namespace ConstantPool

theorem at?_eq_ok {p : ConstantPool} {i : UInt16} {k : Constant} :
    p.at? i = .ok k ↔ p.slots[i.toNat]? = some k := by
  rw [at?]
  cases p.slots[i.toNat]? with
  | none => exact ⟨nofun, nofun⟩
  | some l => rw [Except.ok.injEq, Option.some.injEq]

theorem text_eq_ok {p : ConstantPool} {i : UInt16} {s : String} :
    p.text i = .ok s ↔
      ∃ b, p.slots[i.toNat]? = some (.utf8 b) ∧ ModifiedUtf8.decode? b = some s := by
  rw [text, except_bind_eq_ok]
  simp only [at?_eq_ok]
  constructor
  · rintro ⟨k, slot, read⟩
    cases k with
    | utf8 b =>
      refine ⟨b, slot, ?_⟩
      cases decoded : ModifiedUtf8.decode? b with
      | none => simp only [decoded, reduceCtorEq] at read
      | some t => simpa only [decoded, Except.ok.injEq, Option.some.injEq] using read
    | _ => exact nomatch read
  · rintro ⟨b, slot, decoded⟩
    exact ⟨.utf8 b, slot, by simp only [decoded]⟩

theorem className_eq_ok {p : ConstantPool} {i : UInt16} {s : String} :
    p.className i = .ok s ↔
      ∃ n, p.slots[i.toNat]? = some (.classRef n) ∧ p.text n = .ok s := by
  rw [className, except_bind_eq_ok]
  simp only [at?_eq_ok]
  constructor
  · rintro ⟨k, slot, read⟩
    cases k with
    | classRef n => exact ⟨n, slot, read⟩
    | _ => exact nomatch read
  · exact fun ⟨n, slot, read⟩ => ⟨.classRef n, slot, read⟩

theorem nameAndType_eq_ok {p : ConstantPool} {i : UInt16} {s : String × String} :
    p.nameAndType i = .ok s ↔
      ∃ n d, p.slots[i.toNat]? = some (.nameAndType n d) ∧ p.text n = .ok s.1 ∧
        p.text d = .ok s.2 := by
  rw [nameAndType, except_bind_eq_ok]
  simp only [at?_eq_ok]
  constructor
  · rintro ⟨k, slot, read⟩
    cases k with
    | nameAndType n d =>
      obtain ⟨name, hn, read⟩ := except_bind_eq_ok.mp read
      obtain ⟨descriptor, hd, read⟩ := except_bind_eq_ok.mp read
      rw [← Except.ok.inj read]
      exact ⟨n, d, slot, hn, hd⟩
    | _ => exact nomatch read
  · rintro ⟨n, d, slot, hn, hd⟩
    exact ⟨.nameAndType n d, slot, except_bind_eq_ok.mpr ⟨s.1, hn,
      except_bind_eq_ok.mpr ⟨s.2, hd, rfl⟩⟩⟩

/-- `q` is a later state of `p`. -/
structure Evolves (p q : ConstantPool) : Prop where
  kept : ∀ (i : ℕ) (k : Constant), p.slots[i]? = some k → ∃ l, q.slots[i]? = some l ∧ k.Repoints l
  added : ∀ (i : ℕ) (l : Constant), p.size ≤ i → q.slots[i]? = some l → l.Plain
  bound : q.size ≤ max p.size maxSize

namespace Evolves

theorem refl (p : ConstantPool) : p.Evolves p where
  kept _ k slot := ⟨k, slot, .same k⟩
  added _ l h found := by
    rw [Array.getElem?_eq_none h] at found
    exact nomatch found
  bound := le_max_left _ _

theorem of_slots_eq {p q : ConstantPool} (h : p.slots = q.slots) : p.Evolves q where
  kept _ k slot := ⟨k, h ▸ slot, .same k⟩
  added _ l bound slot := (refl p).added _ l bound (h ▸ slot)
  bound := le_max_of_le_left (congrArg Array.size h).ge

theorem trans {p q r : ConstantPool} (h : p.Evolves q) (h' : q.Evolves r) : p.Evolves r where
  kept i k slot := by
    obtain ⟨l, hl, first⟩ := h.kept i k slot
    obtain ⟨m, hm, second⟩ := h'.kept i l hl
    exact ⟨m, hm, first.trans second⟩
  added i m bound slot := by
    by_cases within : i < q.size
    · have old : q.slots[i]? = some q.slots[i] := Array.getElem?_eq_getElem within
      obtain ⟨m', hm', repoints⟩ := h'.kept i _ old
      have plain := h.added i _ bound old
      rw [slot, repoints.eq_of_plain plain] at hm'
      rw [Option.some.inj hm']
      exact plain
    · exact h'.added i m (not_lt.mp within) slot
  bound := h'.bound.trans (max_le h.bound (le_max_right _ _))

theorem slot_of_plain {p q : ConstantPool} (h : p.Evolves q) {i : ℕ} {k : Constant}
    (slot : p.slots[i]? = some k) (plain : k.Plain) : q.slots[i]? = some k := by
  obtain ⟨l, hl, repoints⟩ := h.kept i k slot
  rwa [repoints.eq_of_plain plain] at hl

theorem text {p q : ConstantPool} (h : p.Evolves q) {i : UInt16} {s : String}
    (old : p.text i = .ok s) : q.text i = .ok s := by
  obtain ⟨b, slot, decoded⟩ := text_eq_ok.mp old
  exact text_eq_ok.mpr ⟨b, h.slot_of_plain slot trivial, decoded⟩

theorem nameAndType {p q : ConstantPool} (h : p.Evolves q) {i : UInt16} {s : String × String}
    (old : p.nameAndType i = .ok s) : q.nameAndType i = .ok s := by
  obtain ⟨n, d, slot, name, descriptor⟩ := nameAndType_eq_ok.mp old
  exact nameAndType_eq_ok.mpr ⟨n, d, h.slot_of_plain slot trivial, h.text name, h.text descriptor⟩

/-- The old slots, repointed, and behind them the new ones. -/
theorem toList {p q : ConstantPool} (h : p.Evolves q) :
    List.Forall₂ Constant.Repoints p.slots.toList (q.slots.toList.take p.size) ∧
      ∀ k ∈ q.slots.toList.drop p.size, k.Plain := by
  constructor
  · have size : p.slots.toList.length = p.size := Array.length_toList
    have room : p.size ≤ q.slots.toList.length := by
      by_contra short
      have last : q.slots.toList.length < p.size := not_le.mp short
      rw [Array.length_toList] at last
      obtain ⟨l, hl, _⟩ := h.kept q.slots.size _ (Array.getElem?_eq_getElem last)
      rw [Array.getElem?_eq_none le_rfl] at hl
      exact nomatch hl
    refine List.forall₂_iff_get.mpr ⟨by rw [size, List.length_take_of_le room], fun i hi hi' => ?_⟩
    have old : p.slots[i]? = some (p.slots.toList.get ⟨i, hi⟩) := by
      rw [← Array.getElem?_toList, List.getElem?_eq_getElem hi]
      rfl
    obtain ⟨l, hl, repoints⟩ := h.kept i _ old
    have new : (q.slots.toList.take p.size)[i]? = some l := by
      rw [List.getElem?_take_of_lt (size ▸ hi), Array.getElem?_toList, hl]
    rw [List.getElem?_eq_getElem hi', Option.some.injEq] at new
    show (p.slots.toList.get ⟨i, hi⟩).Repoints (q.slots.toList.take p.size)[i]
    rwa [new]
  · intro k hk
    obtain ⟨i, slot⟩ := List.mem_iff_getElem?.mp hk
    rw [List.getElem?_drop, Array.getElem?_toList] at slot
    exact h.added _ k (Nat.le_add_right _ _) slot

/-- What was storable stays so, if the texts that were added are. -/
theorem storable {p q : ConstantPool} (h : p.Evolves q) (fits : p.Storable)
    (new : ∀ b, .utf8 b ∈ q.slots.toList.drop p.size → b.length < 0x10000) : q.Storable := by
  obtain ⟨old, added⟩ := h.toList
  obtain ⟨ks, front, laid⟩ := fits.laid
  constructor
  · rw [front] at old
    obtain ⟨l, ls, first, rest, taken⟩ := List.forall₂_cons_left_iff.mp old
    cases first
    refine ⟨ls ++ q.slots.toList.drop p.size, ?_, (laid.repoint rest).append
      (Constant.laid_of_plain added)⟩
    rw [← List.cons_append, ← taken, List.take_append_drop]
  · intro k hk
    rw [← List.take_append_drop p.size q.slots.toList, List.mem_append] at hk
    rcases hk with hk | hk
    · obtain ⟨l, hl, repoints⟩ := exists_of_mem_right old hk
      exact repoints.storable (fits.constants l hl)
    · cases k with
      | utf8 b => exact new b hk
      | nameAndType => trivial
      | _ => exact (added _ hk).elim

end Evolves

end ConstantPool

end ModRemap
