import Mathlib
import ModRemap.ClassFile.Basic
import ModRemap.Proofs.Dict
import ModRemap.Proofs.Reader

/-! Class files are read back as they were written, when every part of them fits into its field. -/

namespace ModRemap

open Reader

namespace Constant

/-- A constant that is read back from what is written of it. -/
def Storable : Constant → Prop
  | .utf8 bytes => bytes.length < 0x10000
  | .memberRef tag _ _ => tag = 9 ∨ tag = 10 ∨ tag = 11
  | .dynamic tag _ _ => tag = 17 ∨ tag = 18
  | _ => True

theorem slots_pos (k : Constant) : 0 < k.slots := by
  rw [slots]
  split_ifs <;> decide

/-- Each wide constant is followed by an unusable slot, and no other slot is unusable. -/
inductive Laid : List Constant → Prop
  | nil : Laid []
  | narrow {k : Constant} {ks : List Constant} (width : k.isWide = false) (usable : k ≠ .unusable)
      (rest : Laid ks) : Laid (k :: ks)
  | wide {k : Constant} {ks : List Constant} (width : k.isWide = true) (rest : Laid ks) :
      Laid (k :: .unusable :: ks)

theorem Laid.append {ks ls : List Constant} (hk : Laid ks) (hl : Laid ls) : Laid (ks ++ ls) := by
  induction hk with
  | nil => exact hl
  | narrow width usable _ ih => exact .narrow width usable ih
  | wide width _ ih => exact .wide width ih

theorem reads_read {k : Constant} (usable : k ≠ .unusable) (fits : k.Storable) :
    Reads read k.write k := by
  cases k with
  | utf8 bytes =>
    have size : (UInt16.ofNat bytes.length).toNat = bytes.length := UInt16.toNat_ofNat_of_lt fits
    have body : Reads (take (UInt16.ofNat bytes.length).toNat) bytes bytes :=
      size.symm ▸ reads_take bytes
    exact (reads_u1 1).bind ((reads_u2 _).bind body.map)
  | integer value => exact (reads_u1 3).bind (reads_u4 value).map
  | float bits => exact (reads_u1 4).bind (reads_u4 bits).map
  | long value => exact (reads_u1 5).bind (reads_u8 value).map
  | double bits => exact (reads_u1 6).bind (reads_u8 bits).map
  | classRef name => exact (reads_u1 7).bind (reads_u2 name).map
  | string text => exact (reads_u1 8).bind (reads_u2 text).map
  | memberRef tag owner symbol =>
    rcases fits with rfl | rfl | rfl
    · exact (reads_u1 9).bind ((reads_u2 owner).bind (reads_u2 symbol).map)
    · exact (reads_u1 10).bind ((reads_u2 owner).bind (reads_u2 symbol).map)
    · exact (reads_u1 11).bind ((reads_u2 owner).bind (reads_u2 symbol).map)
  | nameAndType name descriptor =>
    exact (reads_u1 12).bind ((reads_u2 name).bind (reads_u2 descriptor).map)
  | methodHandle kind reference =>
    exact (reads_u1 15).bind ((reads_u1 kind).bind (reads_u2 reference).map)
  | methodType descriptor => exact (reads_u1 16).bind (reads_u2 descriptor).map
  | dynamic tag bootstrap symbol =>
    rcases fits with rfl | rfl
    · exact (reads_u1 17).bind ((reads_u2 bootstrap).bind (reads_u2 symbol).map)
    · exact (reads_u1 18).bind ((reads_u2 bootstrap).bind (reads_u2 symbol).map)
  | moduleRef name => exact (reads_u1 19).bind (reads_u2 name).map
  | packageRef name => exact (reads_u1 20).bind (reads_u2 name).map
  | unusable => exact absurd rfl usable

theorem yields_read : Yields read fun k => k ≠ .unusable ∧ k.Storable := by
  refine (yields_true u1).bind fun tag _ => ?_
  refine .ite (fun _ => ?utf8) fun _ => ?_
  case utf8 =>
    exact (yields_true u2).bind fun length _ => (yields_take length.toNat).bind fun b hb =>
      yields_pure ⟨nofun, lt_of_eq_of_lt hb length.toNat_lt⟩
  have one {β : Type} (r : Reader β) {f : β → Constant} (h : ∀ b, f b ≠ .unusable ∧ (f b).Storable) :
      Yields (r >>= fun b => pure (f b)) fun k => k ≠ .unusable ∧ k.Storable :=
    (yields_true r).bind fun b _ => yields_pure (h b)
  have two {β γ : Type} (r : Reader β) (r' : Reader γ) {f : β → γ → Constant}
      (h : ∀ b c, f b c ≠ .unusable ∧ (f b c).Storable) :
      Yields (r >>= fun b => r' >>= fun c => pure (f b c)) fun k => k ≠ .unusable ∧ k.Storable :=
    (yields_true r).bind fun b _ => one r' (h b)
  refine .ite (fun _ => one _ fun _ => ⟨nofun, trivial⟩) fun _ => ?_
  refine .ite (fun _ => one _ fun _ => ⟨nofun, trivial⟩) fun _ => ?_
  refine .ite (fun _ => one _ fun _ => ⟨nofun, trivial⟩) fun _ => ?_
  refine .ite (fun _ => one _ fun _ => ⟨nofun, trivial⟩) fun _ => ?_
  refine .ite (fun _ => one _ fun _ => ⟨nofun, trivial⟩) fun _ => ?_
  refine .ite (fun _ => one _ fun _ => ⟨nofun, trivial⟩) fun _ => ?_
  refine .ite (fun tags => two _ _ fun _ _ => ⟨nofun, ?member⟩) fun _ => ?_
  case member =>
    show tag = 9 ∨ tag = 10 ∨ tag = 11
    simpa only [Bool.or_eq_true, decide_eq_true_eq, or_assoc] using tags
  refine .ite (fun _ => two _ _ fun _ _ => ⟨nofun, trivial⟩) fun _ => ?_
  refine .ite (fun _ => two _ _ fun _ _ => ⟨nofun, trivial⟩) fun _ => ?_
  refine .ite (fun _ => one _ fun _ => ⟨nofun, trivial⟩) fun _ => ?_
  refine .ite (fun tags => two _ _ fun _ _ => ⟨nofun, ?site⟩) fun _ => ?_
  case site =>
    show tag = 17 ∨ tag = 18
    simpa only [Bool.or_eq_true, decide_eq_true_eq] using tags
  refine .ite (fun _ => one _ fun _ => ⟨nofun, trivial⟩) fun _ => ?_
  exact .ite (fun _ => one _ fun _ => ⟨nofun, trivial⟩) fun _ => yields_fail _ _

end Constant

namespace ConstantPool

/-- Every text is found where it stands, and every slot has an index. -/
structure Sound (p : ConstantPool) : Prop where
  texts : ∀ b i, p.texts.get? b = some i → p.slots[i.toNat]? = some (.utf8 b)
  size : p.size ≤ 0x10000

structure Storable (p : ConstantPool) : Prop where
  laid : ∃ ks, p.slots.toList = .unusable :: ks ∧ Constant.Laid ks
  constants : ∀ k ∈ p.slots.toList, k.Storable

theorem append_slots (p : ConstantPool) (k : Constant) :
    (p.append k).slots.toList = p.slots.toList ++ (if k.isWide then [k, .unusable] else [k]) := by
  rw [append]
  split_ifs <;> simp

theorem appendRead_slots (p : ConstantPool) (k : Constant) :
    (p.appendRead k).slots = (p.append k).slots := by
  cases k <;> rfl

/-- A wide constant at the end fills one slot more than there are left. -/
theorem readSlots_succ (p : ConstantPool) (n : ℕ) :
    p.readSlots (n + 1) =
      Constant.read >>= fun k => (p.appendRead k).readSlots (n + 1 - k.slots) := by
  cases n with
  | zero =>
    rw [readSlots]
    refine congrArg (Constant.read >>= ·) (funext fun k => ?_)
    rw [Constant.slots]
    cases k.isWide <;> rfl
  | succ n =>
    rw [readSlots]
    refine congrArg (Constant.read >>= ·) (funext fun k => ?_)
    rw [Constant.slots]
    cases k.isWide <;> rfl

theorem reads_readSlots {ks : List Constant} (laid : Constant.Laid ks)
    (fits : ∀ k ∈ ks, k.Storable) (p : ConstantPool) :
    ∃ q, Reads (p.readSlots ks.length) (ks.flatMap Constant.write) q ∧
      q.slots.toList = p.slots.toList ++ ks := by
  induction laid generalizing p with
  | nil => exact ⟨p, reads_pure p, (List.append_nil _).symm⟩
  | @narrow k ks width usable _ ih =>
    obtain ⟨first, fits⟩ := List.forall_mem_cons.mp fits
    obtain ⟨q, reads, slots⟩ := ih fits (p.appendRead k)
    refine ⟨q, ?_, ?_⟩
    · rw [List.length_cons, readSlots_succ, List.flatMap_cons]
      refine (Constant.reads_read usable first).bind ?_
      rw [Constant.slots, width]
      exact reads
    · rw [slots, appendRead_slots, append_slots, width, List.append_assoc]
      rfl
  | @wide k ks width _ ih =>
    obtain ⟨first, fits⟩ := List.forall_mem_cons.mp fits
    obtain ⟨q, reads, slots⟩ := ih (List.forall_mem_cons.mp fits).2 (p.appendRead k)
    have usable : k ≠ .unusable := by
      rintro rfl
      exact nomatch width
    refine ⟨q, ?_, ?_⟩
    · rw [List.length_cons, readSlots_succ, List.flatMap_cons]
      refine (Constant.reads_read usable first).bind ?_
      rw [Constant.slots, width]
      exact reads
    · rw [slots, appendRead_slots, append_slots, width, List.append_assoc]
      rfl

theorem reads_read {p : ConstantPool} (fits : p.Storable) (size : p.size < 0x10000) :
    ∃ q, Reads read p.write q ∧ q.slots = p.slots := by
  -- The first slot of a pool is never written, but the count includes it.
  obtain ⟨ks, front, laid⟩ := fits.laid
  have tail : ∀ k ∈ ks, k.Storable := fun k hk =>
    fits.constants k (front ▸ List.mem_cons_of_mem _ hk)
  obtain ⟨q, reads, slots⟩ := reads_readSlots laid tail empty
  have length : p.size = ks.length + 1 := by
    rw [ConstantPool.size, ← Array.length_toList, front, List.length_cons]
  have count : (UInt16.ofNat p.size).toNat - 1 = ks.length := by
    rw [UInt16.toNat_ofNat_of_lt' size, length, Nat.add_sub_cancel]
  refine ⟨q, ?_, ?_⟩
  · rw [write, front, List.tail_cons]
    refine (reads_u2 _).bind ?_
    rw [count]
    exact reads
  · apply Array.toList_inj.mp
    rw [slots, front]
    rfl

theorem size_append (p : ConstantPool) (k : Constant) : (p.append k).size = p.size + k.slots := by
  rw [ConstantPool.size, ← Array.length_toList, append_slots, List.length_append,
    Array.length_toList, Constant.slots]
  split_ifs <;> rfl

theorem getElem?_append_of_lt (p : ConstantPool) (k : Constant) {i : ℕ} (h : i < p.size) :
    (p.append k).slots[i]? = p.slots[i]? := by
  rw [← Array.getElem?_toList, ← Array.getElem?_toList, append_slots, List.getElem?_append_left]
  rwa [Array.length_toList]

theorem getElem?_append_size (p : ConstantPool) (k : Constant) :
    (p.append k).slots[p.size]? = some k := by
  rw [← Array.getElem?_toList, append_slots, List.getElem?_append_right (by rfl),
    Array.length_toList, ConstantPool.size, Nat.sub_self]
  split_ifs <;> rfl

theorem Sound.lt_size {p : ConstantPool} (h : p.Sound) {b : Bytes} {i : UInt16}
    (found : p.texts.get? b = some i) : i.toNat < p.size :=
  (Array.getElem?_eq_some_iff.mp (h.texts b i found)).1

/-- Slots are added behind those that are there, so that a text keeps its place. -/
theorem Sound.append {p : ConstantPool} (h : p.Sound) {k : Constant}
    (room : p.size + k.slots ≤ 0x10000) : (p.append k).Sound where
  texts b i found := (getElem?_append_of_lt p k (h.lt_size found)).trans (h.texts b i found)
  size := size_append p k ▸ room

theorem toNat_next {p : ConstantPool} (h : p.size < 0x10000) : p.next.toNat = p.size :=
  UInt16.toNat_ofNat_of_lt' h

theorem Sound.appendRead {p : ConstantPool} (h : p.Sound) {k : Constant}
    (room : p.size + k.slots ≤ 0x10000) : (p.appendRead k).Sound := by
  cases k with
  | utf8 b =>
    have index : p.next.toNat = p.size := toNat_next room
    refine ⟨fun b' i found => ?_, (h.append room).size⟩
    replace found : (p.texts.insertNew b p.next).get? b' = some i := found
    rw [Dict.get?_insertNew] at found
    split_ifs at found with same
    · cases old : p.texts.get? b with
      | none =>
        rw [old, Option.getD_none, Option.some.injEq] at found
        rw [← found, same, index]
        exact getElem?_append_size p (.utf8 b)
      | some j =>
        rw [old, Option.getD_some, Option.some.injEq] at found
        exact (h.append room).texts b' i (by rw [same, ← found]; exact old)
    · exact (h.append room).texts b' i found
  | _ => exact h.append room

theorem Storable.appendRead {p : ConstantPool} (h : p.Storable) {k : Constant}
    (usable : k ≠ .unusable) (fits : k.Storable) : (p.appendRead k).Storable := by
  obtain ⟨ks, front, laid⟩ := h.laid
  have slots := (congrArg Array.toList (appendRead_slots p k)).trans (append_slots p k)
  refine ⟨⟨ks ++ if k.isWide then [k, .unusable] else [k], ?_, laid.append ?_⟩, fun l hl => ?_⟩
  · rw [slots, front, List.cons_append]
  · split_ifs with width
    · exact .wide width .nil
    · exact .narrow (Bool.eq_false_of_not_eq_true width) usable .nil
  · rw [slots, List.mem_append] at hl
    rcases hl with hl | hl
    · exact h.constants l hl
    · split_ifs at hl
      · rcases List.mem_pair.mp hl with rfl | rfl
        · exact fits
        · exact trivial
      · exact List.mem_singleton.mp hl ▸ fits

theorem yields_readSlots (n : ℕ) {p : ConstantPool} (storable : p.Storable) (sound : p.Sound)
    (room : p.size + n < 0x10000) :
    Yields (p.readSlots n) fun q => q.Storable ∧ q.Sound := by
  induction n using Nat.strong_induction_on generalizing p with
  | _ n ih =>
    cases n with
    | zero => exact yields_pure ⟨storable, sound⟩
    | succ n =>
      rw [readSlots_succ]
      refine Constant.yields_read.bind fun k hk => ?_
      have width : k.slots = 1 ∨ k.slots = 2 := by
        rw [Constant.slots]
        split_ifs
        · exact .inr rfl
        · exact .inl rfl
      have size : (p.appendRead k).size = p.size + k.slots := by
        rw [ConstantPool.size, appendRead_slots]
        exact size_append p k
      rcases Nat.eq_zero_or_pos (n + 1 - k.slots) with last | more
      · rw [last]
        exact yields_pure ⟨storable.appendRead hk.1 hk.2, sound.appendRead (by omega)⟩
      · exact ih _ (by omega) (storable.appendRead hk.1 hk.2) (sound.appendRead (by omega))
          (by omega)

theorem storable_empty : empty.Storable :=
  ⟨⟨[], rfl, .nil⟩, fun _ hk => List.mem_singleton.mp hk ▸ trivial⟩

theorem sound_empty : empty.Sound where
  texts _ _ h := nomatch h
  size := by decide

theorem yields_read : Yields read fun p => p.Storable ∧ p.Sound := by
  refine (yields_true u2).bind fun count _ => yields_readSlots _ storable_empty sound_empty ?_
  have size : empty.size = 1 := rfl
  have bound : count.toNat < 0x10000 := count.toNat_lt
  omega

end ConstantPool

def Attribute.Storable (a : Attribute) : Prop := a.info.length < 0x100000000

theorem Attribute.reads_read {a : Attribute} (fits : a.Storable) :
    Reads Attribute.read a.write a := by
  have size : (UInt32.ofNat a.info.length).toNat = a.info.length := UInt32.toNat_ofNat_of_lt fits
  have body : Reads (take (UInt32.ofNat a.info.length).toNat) a.info a.info :=
    size.symm ▸ reads_take a.info
  rw [Attribute.write, List.append_assoc]
  exact (reads_u2 _).bind ((reads_u4 _).bind body.map)

theorem Attribute.yields_read : Yields Attribute.read Attribute.Storable :=
  (yields_true u2).bind fun _ _ => (yields_true u4).bind fun length _ =>
    (yields_take length.toNat).bind fun _ hb => yields_pure (lt_of_eq_of_lt hb length.toNat_lt)

structure Member.Storable (m : Member) : Prop where
  count : m.attributes.length < 0x10000
  attributes : ∀ a ∈ m.attributes, a.Storable

theorem Member.reads_read {m : Member} (fits : m.Storable) : Reads Member.read m.write m := by
  rw [Member.write, List.append_assoc, List.append_assoc]
  exact (reads_u2 _).bind ((reads_u2 _).bind ((reads_u2 _).bind
    (reads_counted fits.count fun a ha => a.reads_read (fits.attributes a ha)).map))

theorem Member.yields_read : Yields Member.read Member.Storable :=
  (yields_true u2).bind fun _ _ => (yields_true u2).bind fun _ _ => (yields_true u2).bind fun _ _ =>
    (yields_counted Attribute.yields_read).bind fun _ has => yields_pure ⟨has.1, has.2⟩

namespace ClassFile

/-- The sizes that a class file has room for. The pool's own size has sixteen bits as well, but a
class that was read may be one slot over them. -/
structure Storable (c : ClassFile) : Prop where
  pool : c.pool.Storable
  interfaces : c.interfaces.length < 0x10000
  fieldCount : c.fields.length < 0x10000
  fields : ∀ m ∈ c.fields, m.Storable
  methodCount : c.methods.length < 0x10000
  methods : ∀ m ∈ c.methods, m.Storable
  attributeCount : c.attributes.length < 0x10000
  attributes : ∀ a ∈ c.attributes, a.Storable

theorem parse_eq_ok {b : Bytes} {c : ClassFile} :
    parse b = .ok c ↔ (readFront >>= readTables) b = .ok (c, []) := by
  rw [parse, except_bind_eq_ok]
  constructor
  · rintro ⟨⟨c', rest⟩, read, done⟩
    dsimp only at done
    split_ifs at done with empty
    rw [List.isEmpty_iff.mp empty] at read
    rwa [← Except.ok.inj done]
  · exact fun read => ⟨(c, []), read, rfl⟩

theorem parseHeader_of_parse {bytes : Bytes} {c : ClassFile} (h : parse bytes = .ok c) : parseHeader bytes = c.header := by
  obtain ⟨front, rest, read, tables⟩ := stateT_bind_eq_ok.mp (parse_eq_ok.mp h)
  have same : front.header = c.header := by
    obtain ⟨fields, _, _, tables⟩ := stateT_bind_eq_ok.mp tables
    obtain ⟨methods, _, _, tables⟩ := stateT_bind_eq_ok.mp tables
    obtain ⟨attributes, _, _, tables⟩ := stateT_bind_eq_ok.mp tables
    obtain ⟨rfl, _⟩ := Prod.mk.inj (Except.ok.inj tables)
    rfl
  rw [parseHeader, read]
  exact same

theorem header_of_slots_eq {c : ClassFile} {p : ConstantPool} (slots : p.slots = c.pool.slots) :
    header { c with pool := p } = c.header := by
  obtain ⟨_, _, ⟨_, _⟩, _, _, _, _, _, _, _⟩ := c
  obtain ⟨_, _⟩ := p
  cases slots
  rfl

/-- Slots aside, a pool that is read tells of its texts where they stand first. -/
theorem parse_write {c : ClassFile} (fits : c.Storable) (size : c.pool.size < 0x10000) :
    ∃ p, p.slots = c.pool.slots ∧ parse c.write = .ok { c with pool := p } := by
  obtain ⟨p, pool, slots⟩ := ConstantPool.reads_read fits.pool size
  have front : Reads readFront (Bytes.ofU4 magic ++ (Bytes.ofU2 c.minor ++ (Bytes.ofU2 c.major ++
      (c.pool.write ++ (Bytes.ofU2 c.access ++ (Bytes.ofU2 c.thisClass ++ (Bytes.ofU2 c.superclass ++
      Bytes.ofCounted Bytes.ofU2 c.interfaces)))))))
      { c with pool := p, fields := [], methods := [], attributes := [] } :=
    (reads_u4 magic).bind ((reads_u2 _).bind ((reads_u2 _).bind (pool.bind ((reads_u2 _).bind
      ((reads_u2 _).bind ((reads_u2 _).bind
        (reads_counted fits.interfaces fun i _ => reads_u2 i).map))))))
  have tables (d : ClassFile) : Reads (readTables d) (Bytes.ofCounted Member.write c.fields ++
      (Bytes.ofCounted Member.write c.methods ++ Bytes.ofCounted Attribute.write c.attributes))
      { d with fields := c.fields, methods := c.methods, attributes := c.attributes } :=
    (reads_counted fits.fieldCount fun m hm => Member.reads_read (fits.fields m hm)).bind
      ((reads_counted fits.methodCount fun m hm => Member.reads_read (fits.methods m hm)).bind
        (reads_counted fits.attributeCount fun a ha =>
          Attribute.reads_read (fits.attributes a ha)).map)
  refine ⟨p, slots, parse_eq_ok.mpr ?_⟩
  have whole := (front.bind (tables _)) []
  simpa only [write, List.append_assoc, List.append_nil] using whole

theorem yields_readFront : Yields readFront fun c => c.pool.Storable ∧ c.pool.Sound ∧
    c.interfaces.length < 0x10000 := by
  refine (yields_true u4).bind fun m _ => .ite
    (fun _ => (yields_fail _ fun _ => False).bind fun _ h => h.elim) fun _ => ?_
  exact (yields_true u2).bind fun _ _ => (yields_true u2).bind fun _ _ =>
    ConstantPool.yields_read.bind fun p hp => (yields_true u2).bind fun _ _ =>
    (yields_true u2).bind fun _ _ => (yields_true u2).bind fun _ _ =>
    (yields_counted (yields_true u2)).bind fun _ count => yields_pure ⟨hp.1, hp.2, count.1⟩

/-- Whatever is read has sizes that fit, because it was read from fields of those sizes. -/
theorem storable_of_parse {b : Bytes} {c : ClassFile} (h : parse b = .ok c) :
    c.Storable ∧ c.pool.Sound := by
  have whole : Yields (readFront >>= readTables) fun c => c.Storable ∧ c.pool.Sound :=
    yields_readFront.bind fun d hd =>
      (yields_counted Member.yields_read).bind fun fs hf =>
      (yields_counted Member.yields_read).bind fun ms hm =>
      (yields_counted Attribute.yields_read).bind fun as ha =>
      yields_pure ⟨⟨hd.1, hd.2.2, hf.1, hf.2, hm.1, hm.2, ha.1, ha.2⟩, hd.2.1⟩
  exact whole b c [] (parse_eq_ok.mp h)

end ClassFile

end ModRemap
