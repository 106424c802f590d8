import Mathlib
import ModRemap.Proofs.PoolGrowth

/-! What comes out of interning. A text or a pair is found at the index that is told, and nothing
that has an index is lost. -/

namespace ModRemap.ConstantPool

variable {α β : Type}

theorem edit_run_bind (x : Edit α) (f : α → Edit β) (p : ConstantPool) :
    (x >>= f).run p = match x.run p with
      | (.ok a, p') => (f a).run p'
      | (.error e, p') => (.error e, p') := by
  show ExceptT.bindCont f (x.run p).1 (x.run p).2 = _
  rcases x.run p with ⟨e | a, p'⟩ <;> rfl

theorem edit_bind_eq_ok {x : Edit α} {f : α → Edit β} {p q : ConstantPool} {b : β} :
    (x >>= f).run p = (.ok b, q) ↔ ∃ a p', x.run p = (.ok a, p') ∧ (f a).run p' = (.ok b, q) := by
  rw [edit_run_bind]
  rcases x.run p with ⟨e | a, p'⟩
  · exact ⟨fun h => (nomatch (Prod.mk.inj h).1), fun ⟨_, _, h, _⟩ => (nomatch (Prod.mk.inj h).1)⟩
  · constructor
    · exact fun h => ⟨a, p', rfl, h⟩
    · rintro ⟨a', p'', same, h⟩
      obtain ⟨ha, rfl⟩ := Prod.mk.inj same
      exact Except.ok.inj ha ▸ h

theorem push_eq_ok {k : Constant} {p q : ConstantPool} {i : UInt16} :
    (push k).run p = (.ok i, q) ↔ p.size + k.slots ≤ maxSize ∧ i = p.next ∧ q = p.append k := by
  show (if maxSize < p.size + k.slots then _ else _) = _ ↔ _
  split_ifs with full
  · exact ⟨fun h => (nomatch (Prod.mk.inj h).1), fun h => absurd h.1 (not_le.mpr full)⟩
  · rw [Prod.mk.injEq, Except.ok.injEq]
    exact ⟨fun ⟨hi, hq⟩ => ⟨not_lt.mp full, hi.symm, hq.symm⟩, fun ⟨_, hi, hq⟩ => ⟨hi.symm, hq.symm⟩⟩

/-- A plain constant behind all others. -/
theorem Evolves.append {p : ConstantPool} {k : Constant} (plain : k.Plain)
    (room : p.size + k.slots ≤ maxSize) : p.Evolves (p.append k) where
  kept i l slot :=
    ⟨l, (getElem?_append_of_lt p k (Array.getElem?_eq_some_iff.mp slot).1).trans slot, .same l⟩
  added i l bound slot := by
    have width : k.isWide = false := by
      cases k <;> first | rfl | exact plain.elim
    have last : [k][i - p.slots.toList.length]? = some l := by
      rwa [← Array.getElem?_toList, append_slots, width,
        List.getElem?_append_right (by rwa [Array.length_toList])] at slot
    rw [List.mem_singleton.mp (List.mem_of_getElem? last)]
    exact plain
  bound := le_max_of_le_right (size_append p k ▸ room)

/-- No slot of `p` is another one in `q`. -/
def Keeps (p q : ConstantPool) : Prop :=
  ∀ (i : ℕ) (k : Constant), p.slots[i]? = some k → q.slots[i]? = some k

theorem Keeps.trans {p q r : ConstantPool} (h : p.Keeps q) (h' : q.Keeps r) : p.Keeps r :=
  fun i k slot => h' i k (h i k slot)

/-- What interning promises of the index `i`, which it tells in the state `q`. -/
structure Interned (p : ConstantPool) (k : Constant) (i : UInt16) (q : ConstantPool) : Prop where
  sound : q.Sound
  evolves : p.Evolves q
  keeps : p.Keeps q
  slot : q.slots[i.toNat]? = some k

theorem interned_of_push {k : Constant} (plain : k.Plain) {p q : ConstantPool} (sound : p.Sound)
    {i : UInt16} (h : (push k).run p = (.ok i, q)) : p.Interned k i q := by
  obtain ⟨room, rfl, rfl⟩ := push_eq_ok.mp h
  have one : k.slots = 1 := by
    cases k <;> first | rfl | exact plain.elim
  have bound : p.size + 1 ≤ 65535 := one ▸ room
  refine ⟨sound.append (by omega), .append plain room, fun j l slot => ?_, ?_⟩
  · exact (getElem?_append_of_lt p k (Array.getElem?_eq_some_iff.mp slot).1).trans slot
  · rw [toNat_next (by omega)]
    exact getElem?_append_size p k

theorem interned_internText {s : String} {p q : ConstantPool} (sound : p.Sound) {i : UInt16}
    (h : (internText s).run p = (.ok i, q)) : p.Interned (.utf8 (ModifiedUtf8.encode s)) i q := by
  obtain ⟨p', _, now, h⟩ := edit_bind_eq_ok.mp h
  obtain ⟨hp, rfl⟩ := Prod.mk.inj now
  obtain rfl := Except.ok.inj hp
  cases known : p.texts.get? (ModifiedUtf8.encode s) with
  | some j =>
    rw [known] at h
    obtain ⟨hi, rfl⟩ := Prod.mk.inj h
    obtain rfl := Except.ok.inj hi
    exact ⟨sound, .refl p, fun _ _ slot => slot, sound.texts _ j known⟩
  | none =>
    rw [known] at h
    obtain ⟨j, p₁, pushed, h⟩ := edit_bind_eq_ok.mp h
    obtain ⟨_, p₂, noted, h⟩ := edit_bind_eq_ok.mp h
    obtain ⟨_, rfl⟩ := Prod.mk.inj noted
    obtain ⟨hi, rfl⟩ := Prod.mk.inj h
    obtain rfl := Except.ok.inj hi
    have interned := interned_of_push (k := .utf8 _) trivial sound pushed
    refine ⟨⟨fun b k found => ?_, interned.sound.size⟩,
      interned.evolves.trans (.of_slots_eq rfl), interned.keeps, interned.slot⟩
    rw [Dict.get?_insert] at found
    split_ifs at found with same
    · rw [same, ← Option.some.inj found]
      exact interned.slot
    · exact interned.sound.texts b k found

theorem Interned.text {p q : ConstantPool} {s : String} {i : UInt16}
    (h : p.Interned (.utf8 (ModifiedUtf8.encode s)) i q) : q.text i = .ok s :=
  text_eq_ok.mpr ⟨_, h.slot, ModifiedUtf8.decode?_encode s⟩

theorem interned_intern {k : Constant} (plain : k.Plain) {p q : ConstantPool} (sound : p.Sound)
    {i : UInt16} (h : (intern k).run p = (.ok i, q)) : p.Interned k i q := by
  obtain ⟨p', _, now, h⟩ := edit_bind_eq_ok.mp h
  obtain ⟨hp, rfl⟩ := Prod.mk.inj now
  obtain rfl := Except.ok.inj hp
  cases known : p.slots.findIdx? (· = k) with
  | some j =>
    rw [known] at h
    obtain ⟨hi, rfl⟩ := Prod.mk.inj h
    obtain rfl := Except.ok.inj hi
    obtain ⟨bound, found, _⟩ := Array.findIdx?_eq_some_iff_getElem.mp known
    have index : (UInt16.ofNat j).toNat = j :=
      UInt16.toNat_ofNat_of_lt' (lt_of_lt_of_le bound sound.size)
    refine ⟨sound, .refl p, fun _ _ slot => slot, ?_⟩
    rw [index, Array.getElem?_eq_getElem bound, of_decide_eq_true found]
  | none =>
    rw [known] at h
    exact interned_of_push plain sound h

theorem internNameAndType_spec {s : String × String} {p q : ConstantPool} (sound : p.Sound)
    {i : UInt16} (h : (internNameAndType s.1 s.2).run p = (.ok i, q)) :
    q.Sound ∧ p.Evolves q ∧ p.Keeps q ∧ q.nameAndType i = .ok s := by
  obtain ⟨n, p₁, named, h⟩ := edit_bind_eq_ok.mp h
  obtain ⟨d, p₂, described, h⟩ := edit_bind_eq_ok.mp h
  have name := interned_internText sound named
  have descriptor := interned_internText name.sound described
  have pair := interned_intern (k := .nameAndType n d) trivial descriptor.sound h
  refine ⟨pair.sound, (name.evolves.trans descriptor.evolves).trans pair.evolves,
    (name.keeps.trans descriptor.keeps).trans pair.keeps, ?_⟩
  exact nameAndType_eq_ok.mpr ⟨n, d, pair.slot,
    pair.evolves.text (descriptor.evolves.text name.text), pair.evolves.text descriptor.text⟩

theorem replace_eq_ok {k : Constant} {p q : ConstantPool} {i : UInt16} {u : Unit} :
    (replace i k).run p = (.ok u, q) ↔
      i.toNat < p.size ∧ q = { p with slots := p.slots.setIfInBounds i.toNat k } := by
  show (if i.toNat < p.size then _ else _) = _ ↔ _
  split_ifs with bound
  · rw [Prod.mk.injEq, Except.ok.injEq]
    exact ⟨fun h => ⟨bound, h.2.symm⟩, fun h => ⟨rfl, h.2.symm⟩⟩
  · exact ⟨fun h => (nomatch (Prod.mk.inj h).1), fun h => absurd h.1 bound⟩

/-- A constant that is replaced by one of its kind. -/
theorem replace_spec {k l : Constant} {p q : ConstantPool} {i : UInt16} {u : Unit}
    (sound : p.Sound) (old : p.slots[i.toNat]? = some k) (kind : k.Repoints l)
    (h : (replace i l).run p = (.ok u, q)) :
    q.Sound ∧ p.Evolves q ∧ q.slots[i.toNat]? = some l ∧
      ∀ j, j ≠ i.toNat → q.slots[j]? = p.slots[j]? := by
  obtain ⟨bound, rfl⟩ := replace_eq_ok.mp h
  have here : (p.slots.setIfInBounds i.toNat l)[i.toNat]? = some l :=
    Array.getElem?_setIfInBounds_self_of_lt bound
  have there (j : ℕ) (hj : j ≠ i.toNat) : (p.slots.setIfInBounds i.toNat l)[j]? = p.slots[j]? :=
    Array.getElem?_setIfInBounds_ne hj.symm
  have evolves : p.Evolves { p with slots := p.slots.setIfInBounds i.toNat l } := by
    refine ⟨fun j m slot => ?_, fun j m outside slot => ?_,
      le_max_of_le_left (Array.size_setIfInBounds).le⟩
    · by_cases hj : j = i.toNat
      · rw [hj, old] at slot
        exact ⟨l, hj ▸ here, Option.some.inj slot ▸ kind⟩
      · exact ⟨m, (there j hj).trans slot, .same m⟩
    · rw [there j (by rintro rfl; omega), Array.getElem?_eq_none outside] at slot
      exact nomatch slot
  refine ⟨⟨fun b j found => evolves.slot_of_plain (sound.texts b j found) trivial, ?_⟩, evolves,
    here, there⟩
  rw [ConstantPool.size, Array.size_setIfInBounds]
  exact sound.size

end ModRemap.ConstantPool
