import Mathlib
import ModRemap.Proofs.RemappedClass

/-! Writing undoes reading. A class that was read is written as the bytes it was read from, all but
the two that hold the size of its pool. -/

namespace ModRemap

namespace Reader

variable {α β : Type}

/-- The bytes that `r` takes for a value are in the relation `P` to it. -/
def Consumes (r : Reader α) (P : Bytes → α → Prop) : Prop :=
  ∀ s a t, r s = .ok (a, t) → ∃ b, s = b ++ t ∧ P b a

theorem Consumes.bind {r : Reader α} {f : α → Reader β} {P : Bytes → α → Prop}
    {Q : Bytes → β → Prop} (hr : Consumes r P)
    (hf : ∀ b a, P b a → Consumes (f a) fun b' => Q (b ++ b')) : Consumes (r >>= f) Q := by
  intro s c t h
  obtain ⟨a, s', ha, hc⟩ := stateT_bind_eq_ok.mp h
  obtain ⟨b, rfl, first⟩ := hr s a s' ha
  obtain ⟨b', rfl, second⟩ := hf b a first s' c t hc
  exact ⟨b ++ b', (List.append_assoc ..).symm, second⟩

theorem consumes_pure {a : α} {P : Bytes → α → Prop} (h : P [] a) : Consumes (pure a) P := by
  intro s b t hb
  obtain ⟨rfl, rfl⟩ := Prod.mk.inj (Except.ok.inj hb)
  exact ⟨[], rfl, h⟩

theorem consumes_fail (e : ClassError) (P : Bytes → α → Prop) : Consumes (fail e) P :=
  fun _ _ _ h => nomatch h

theorem Consumes.ite {p : Prop} [Decidable p] {r r' : Reader α} {P : Bytes → α → Prop}
    (h : p → Consumes r P) (h' : ¬p → Consumes r' P) : Consumes (if p then r else r') P := by
  split_ifs with hp
  · exact h hp
  · exact h' hp

theorem consumes_u1 : Consumes u1 fun b n => b = [n] := by
  intro s n t h
  rcases s with _ | ⟨a, s⟩
  · exact nomatch h
  · obtain ⟨rfl, rfl⟩ := Prod.mk.inj (Except.ok.inj h)
    exact ⟨[a], rfl, rfl⟩

theorem consumes_u2 : Consumes u2 fun b n => b = Bytes.ofU2 n :=
  fun _ n _ h => ⟨Bytes.ofU2 n, u2_eq_ok h, rfl⟩

theorem consumes_u4 : Consumes u4 fun b n => b = Bytes.ofU4 n :=
  fun _ n _ h => ⟨Bytes.ofU4 n, u4_eq_ok h, rfl⟩

theorem consumes_take (n : ℕ) : Consumes (take n) fun b a => b = a ∧ a.length = n :=
  fun _ a _ h => ⟨a, (take_eq_ok h).1, rfl, (take_eq_ok h).2⟩

theorem ofU2_inj {m n : UInt16} : Bytes.ofU2 m = Bytes.ofU2 n ↔ m = n := by
  refine ⟨fun same => ?_, congrArg Bytes.ofU2⟩
  have read := reads_u2 m []
  rw [same, reads_u2 n []] at read
  exact (Prod.mk.inj (Except.ok.inj read)).1.symm

theorem ofU8_words (high low : UInt32) :
    Bytes.ofU8 (UInt64.ofNat (high.toNat * 0x100000000 + low.toNat)) =
      Bytes.ofU4 high ++ Bytes.ofU4 low := by
  have hx : high.toNat < 0x100000000 := high.toNat_lt
  have hy : low.toNat < 0x100000000 := low.toNat_lt
  have value : (UInt64.ofNat (high.toNat * 0x100000000 + low.toNat)).toNat =
      high.toNat * 0x100000000 + low.toNat := UInt64.toNat_ofNat_of_lt
    (show high.toNat * 0x100000000 + low.toNat < 0x10000000000000000 by omega)
  have front : (high.toNat * 0x100000000 + low.toNat) / 0x100000000 = high.toNat := by omega
  have back : UInt32.ofNat (high.toNat * 0x100000000 + low.toNat) = low := by
    apply UInt32.toNat_inj.mp
    rw [UInt32.toNat_ofNat']
    omega
  rw [Bytes.ofU8, value, front, back, UInt32.ofNat_toNat]

theorem consumes_u8 : Consumes u8 fun b n => b = Bytes.ofU8 n := by
  refine consumes_u4.bind fun _ high hb => consumes_u4.bind fun _ low hb' => consumes_pure ?_
  rw [hb, hb', List.append_nil, ofU8_words]

variable {r : Reader α} {w : α → Bytes}

theorem consumes_times (h : Consumes r fun b a => b = w a) (n : ℕ) :
    Consumes (times r n) fun b as => b = as.flatMap w ∧ as.length = n := by
  induction n with
  | zero => exact consumes_pure ⟨rfl, rfl⟩
  | succ n ih =>
    refine h.bind fun b a hb => ih.bind fun b' as hbs => consumes_pure ⟨?_, ?_⟩
    · rw [hb, hbs.1, List.append_nil, List.flatMap_cons]
    · rw [List.length_cons, hbs.2]

theorem consumes_counted (h : Consumes r fun b a => b = w a) :
    Consumes (counted r) fun b as => b = Bytes.ofCounted w as := by
  refine consumes_u2.bind fun b n hb => ?_
  intro s as t read
  obtain ⟨b', split, hbs, length⟩ := consumes_times h n.toNat s as t read
  have count : UInt16.ofNat as.length = n := by rw [length, UInt16.ofNat_toNat]
  refine ⟨b', split, ?_⟩
  show b ++ b' = Bytes.ofCounted w as
  rw [hb, hbs, Bytes.ofCounted, count]

end Reader

open Reader

theorem Constant.consumes_read : Consumes Constant.read fun b k => b = k.write := by
  refine consumes_u1.bind fun _ tag htag => ?_
  subst htag
  refine .ite (fun h => ?utf8) fun _ => ?_
  case utf8 =>
    subst h
    refine consumes_u2.bind fun _ length hl => (consumes_take length.toNat).bind fun _ text ht =>
      consumes_pure ?_
    rw [hl, ht.1, write, ht.2, UInt16.ofNat_toNat, List.append_nil, List.singleton_append,
      List.cons_append]
  have one {β : Type} {r : Reader β} {w : β → Bytes} (hr : Consumes r fun b x => b = w x)
      {f : β → Constant} (hf : ∀ x, (f x).write = tag :: w x) :
      Consumes (r >>= fun x => pure (f x)) fun b k => [tag] ++ b = k.write := by
    refine hr.bind fun b x hb => consumes_pure ?_
    rw [hb, hf, List.append_nil, List.singleton_append]
  have two {β γ : Type} {r : Reader β} {r' : Reader γ} {w : β → Bytes} {w' : γ → Bytes}
      (hr : Consumes r fun b x => b = w x) (hr' : Consumes r' fun b y => b = w' y)
      {f : β → γ → Constant} (hf : ∀ x y, (f x y).write = tag :: w x ++ w' y) :
      Consumes (r >>= fun x => r' >>= fun y => pure (f x y)) fun b k => [tag] ++ b = k.write := by
    refine hr.bind fun b x hb => hr'.bind fun b' y hb' => consumes_pure ?_
    rw [hb, hb', hf, List.append_nil, List.singleton_append, List.cons_append]
  refine .ite (fun h => one consumes_u4 fun _ => h ▸ rfl) fun _ => ?_
  refine .ite (fun h => one consumes_u4 fun _ => h ▸ rfl) fun _ => ?_
  refine .ite (fun h => one consumes_u8 fun _ => h ▸ rfl) fun _ => ?_
  refine .ite (fun h => one consumes_u8 fun _ => h ▸ rfl) fun _ => ?_
  refine .ite (fun h => one consumes_u2 fun _ => h ▸ rfl) fun _ => ?_
  refine .ite (fun h => one consumes_u2 fun _ => h ▸ rfl) fun _ => ?_
  refine .ite (fun _ => two consumes_u2 consumes_u2 fun _ _ => rfl) fun _ => ?_
  refine .ite (fun h => two consumes_u2 consumes_u2 fun _ _ => h ▸ rfl) fun _ => ?_
  refine .ite (fun h => two consumes_u1 consumes_u2 fun _ _ => h ▸ rfl) fun _ => ?_
  refine .ite (fun h => one consumes_u2 fun _ => h ▸ rfl) fun _ => ?_
  refine .ite (fun _ => two consumes_u2 consumes_u2 fun _ _ => rfl) fun _ => ?_
  refine .ite (fun h => one consumes_u2 fun _ => h ▸ rfl) fun _ => ?_
  exact .ite (fun h => one consumes_u2 fun _ => h ▸ rfl) fun _ => consumes_fail _ _

namespace Constant

/-- A wide constant is never last. -/
theorem Laid.isWide_of_getLast? {ks : List Constant} (laid : Laid ks) {k : Constant}
    (last : ks.getLast? = some k) : k.isWide = false := by
  induction laid with
  | nil => exact nomatch last
  | @narrow l ls width _ _ ih =>
    rcases ls with _ | ⟨m, ls⟩
    · rwa [← Option.some.inj last]
    · exact ih (by rwa [List.getLast?_cons_cons] at last)
  | @wide l ls _ _ ih =>
    rcases ls with _ | ⟨m, ls⟩
    · rw [← Option.some.inj last]
      rfl
    · exact ih (by rwa [List.getLast?_cons_cons, List.getLast?_cons_cons] at last)

end Constant

namespace ConstantPool

/-- The slots that are filled are those asked for, or one more behind a wide constant. -/
theorem consumes_readSlots (n : ℕ) (p : ConstantPool) :
    Consumes (p.readSlots n) fun b q => ∃ ks, q.slots.toList = p.slots.toList ++ ks ∧
      b = ks.flatMap Constant.write ∧ (ks.length = n ∨
        ∃ i k, n = i + 1 ∧ ks.length = i + 2 ∧ ks[i]? = some k ∧ k.isWide = true) := by
  induction n using Nat.strong_induction_on generalizing p with
  | _ n ih =>
    cases n with
    | zero => exact consumes_pure ⟨[], (List.append_nil _).symm, rfl, .inl rfl⟩
    | succ n =>
      rw [readSlots_succ]
      refine Constant.consumes_read.bind fun b k hb => ?_
      -- The slots that `k` fills; the second of two is not written.
      obtain ⟨own, length, slots, written, wide⟩ : ∃ own : List Constant, own.length = k.slots ∧
          (p.appendRead k).slots.toList = p.slots.toList ++ own ∧
          own.flatMap Constant.write = k.write ∧
          (k.slots = 1 ∨ k.slots = 2 ∧ own[0]? = some k ∧ k.isWide = true) := by
        rw [appendRead_slots, append_slots, Constant.slots]
        cases k.isWide with
        | false => exact ⟨[k], rfl, rfl, List.append_nil _, .inl rfl⟩
        | true => exact ⟨[k, .unusable], rfl, rfl, List.append_nil _, .inr ⟨rfl, rfl, rfl⟩⟩
      intro s q t read
      obtain ⟨b', split, ks, all, hb', count⟩ :=
        ih (n + 1 - k.slots) (by omega) (p.appendRead k) s q t read
      refine ⟨b', split, own ++ ks, ?_, ?_, ?_⟩
      · rw [all, slots, List.append_assoc]
      · rw [hb, hb', List.flatMap_append, written]
      · rw [List.length_append, length]
        rcases count with filled | ⟨i, l, last, more, found, wide'⟩
        · by_cases fits : k.slots ≤ n + 1
          · exact .inl (by omega)
          · obtain ⟨two, first, wide⟩ := wide.resolve_left (by omega)
            refine .inr ⟨0, k, by omega, by omega, ?_, wide⟩
            rw [List.getElem?_append_left (by omega), first]
        · refine .inr ⟨k.slots + i, l, by omega, by omega, ?_, wide'⟩
          rw [List.getElem?_append_right (by omega), length, Nat.add_sub_cancel_left, found]

/-- What a declared size makes of a pool: it has slot 0 at least, and a wide constant in the last
slot takes one more. -/
def Fills (p : ConstantPool) (count : UInt16) : Prop :=
  p.size = max 1 count.toNat ∨
    p.size = count.toNat + 1 ∧ ∃ k, p.slots[count.toNat - 1]? = some k ∧ k.isWide = true

theorem consumes_read : Consumes read fun b p => ∃ count : UInt16, p.Fills count ∧
    b = Bytes.ofU2 count ++ p.slots.toList.tail.flatMap Constant.write := by
  refine consumes_u2.bind fun b count hb => ?_
  intro s p t read
  obtain ⟨b', split, ks, slots, hb', filled⟩ := consumes_readSlots _ _ s p t read
  have front : p.slots.toList = .unusable :: ks := slots
  have size : p.size = ks.length + 1 := by
    rw [ConstantPool.size, ← Array.length_toList, front, List.length_cons]
  refine ⟨b', split, count, ?_, by rw [hb, hb', front, List.tail_cons]⟩
  rcases filled with exactly | ⟨i, k, last, more, found, wide⟩
  · exact .inl (by omega)
  · refine .inr ⟨by omega, k, ?_, wide⟩
    rw [← Array.getElem?_toList, front, last, List.getElem?_cons_succ, found]

theorem Storable.isWide_of_last {p : ConstantPool} (fits : p.Storable) {k : Constant}
    (last : p.slots[p.size - 1]? = some k) : k.isWide = false := by
  obtain ⟨ks, front, laid⟩ := fits.laid
  rw [← Array.getElem?_toList, ConstantPool.size, ← Array.length_toList,
    ← List.getLast?_eq_getElem?, front] at last
  rcases ks with _ | ⟨l, ks⟩
  · rw [← Option.some.inj last]
    rfl
  · exact laid.isWide_of_getLast? (by rwa [List.getLast?_cons_cons] at last)

/-- Sixteen bits hold the size that was declared where a slot was declared and the last one is not
the first half of a wide constant. -/
theorem Fills.ofNat_size_eq_iff {p : ConstantPool} (fits : p.Storable) {count : UInt16}
    (h : p.Fills count) : UInt16.ofNat p.size = count ↔
      1 ≤ count.toNat ∧ ∀ k, p.slots[count.toNat - 1]? = some k → k.isWide = false := by
  have bound : count.toNat < 0x10000 := count.toNat_lt
  have value : UInt16.ofNat p.size = count ↔ p.size % 0x10000 = count.toNat := by
    rw [← UInt16.toNat_inj, UInt16.toNat_ofNat']
  rw [value]
  rcases h with size | ⟨size, k, slot, wide⟩
  · constructor
    · intro same
      have all : p.size = count.toNat := by omega
      exact ⟨by omega, fun k slot => fits.isWide_of_last (by rwa [all])⟩
    · rintro ⟨some, _⟩
      omega
  · constructor
    · intro same
      omega
    · rintro ⟨_, narrow⟩
      exact nomatch wide.symm.trans (narrow k slot)

end ConstantPool

theorem Attribute.consumes_read : Consumes Attribute.read fun b a => b = a.write := by
  refine consumes_u2.bind fun _ name hn => consumes_u4.bind fun _ length hl =>
    (consumes_take length.toNat).bind fun _ info hi => consumes_pure ?_
  rw [hn, hl, hi.1, write, hi.2, UInt32.ofNat_toNat, List.append_nil, List.append_assoc]

theorem Member.consumes_read : Consumes Member.read fun b m => b = m.write := by
  refine consumes_u2.bind fun _ access ha => consumes_u2.bind fun _ name hn =>
    consumes_u2.bind fun _ descriptor hd =>
    (consumes_counted Attribute.consumes_read).bind fun _ attributes has => consumes_pure ?_
  rw [ha, hn, hd, has, write]
  simp only [List.append_nil, List.append_assoc]

namespace ClassFile

/-- What is written before the size of the pool. -/
def opening (c : ClassFile) : Bytes :=
  Bytes.ofU4 magic ++ Bytes.ofU2 c.minor ++ Bytes.ofU2 c.major

/-- What is written behind the size of the pool. -/
def content (c : ClassFile) : Bytes :=
  c.pool.slots.toList.tail.flatMap Constant.write ++ Bytes.ofU2 c.access ++
    Bytes.ofU2 c.thisClass ++ Bytes.ofU2 c.superclass ++ Bytes.ofCounted Bytes.ofU2 c.interfaces ++
    Bytes.ofCounted Member.write c.fields ++ Bytes.ofCounted Member.write c.methods ++
    Bytes.ofCounted Attribute.write c.attributes

theorem write_eq (c : ClassFile) :
    c.write = c.opening ++ (Bytes.ofU2 (UInt16.ofNat c.pool.size) ++ c.content) := by
  simp only [write, ConstantPool.write, opening, content, List.append_assoc]

theorem consumes_readFront : Consumes readFront fun b c => ∃ count : UInt16,
    c.pool.Fills count ∧ b = c.opening ++ (Bytes.ofU2 count ++
      (c.pool.slots.toList.tail.flatMap Constant.write ++ Bytes.ofU2 c.access ++
        Bytes.ofU2 c.thisClass ++ Bytes.ofU2 c.superclass ++
        Bytes.ofCounted Bytes.ofU2 c.interfaces)) := by
  refine consumes_u4.bind fun _ m hm => .ite
    (fun _ => (consumes_fail _ fun _ _ => False).bind fun _ _ h => h.elim) fun known => ?_
  refine consumes_u2.bind fun _ minor h₁ => consumes_u2.bind fun _ major h₂ =>
    ConstantPool.consumes_read.bind fun _ pool ⟨count, fills, h₃⟩ =>
    consumes_u2.bind fun _ access h₄ => consumes_u2.bind fun _ thisClass h₅ =>
    consumes_u2.bind fun _ superclass h₆ =>
    (consumes_counted consumes_u2).bind fun _ interfaces h₇ => consumes_pure ⟨count, fills, ?_⟩
  rw [hm, h₁, h₂, h₃, h₄, h₅, h₆, h₇, not_not.mp known]
  simp only [opening, List.append_nil, List.append_assoc]

theorem consumes_readTables (d : ClassFile) : Consumes (readTables d) fun b c =>
    ∃ fields methods attributes, c = { d with fields, methods, attributes } ∧
      b = Bytes.ofCounted Member.write fields ++ Bytes.ofCounted Member.write methods ++
        Bytes.ofCounted Attribute.write attributes := by
  refine (consumes_counted Member.consumes_read).bind fun _ fields hf =>
    (consumes_counted Member.consumes_read).bind fun _ methods hm =>
    (consumes_counted Attribute.consumes_read).bind fun _ attributes ha =>
    consumes_pure ⟨fields, methods, attributes, rfl, ?_⟩
  rw [hf, hm, ha]
  simp only [List.append_nil, List.append_assoc]

/-- The bytes of a class are what is written of it, around the size that they declare. -/
theorem bytes_of_parse {bytes : Bytes} {c : ClassFile} (parsed : parse bytes = .ok c) :
    ∃ count : UInt16, c.pool.Fills count ∧
      bytes = c.opening ++ (Bytes.ofU2 count ++ c.content) := by
  obtain ⟨d, s, first, second⟩ := stateT_bind_eq_ok.mp (parse_eq_ok.mp parsed)
  obtain ⟨b, rfl, count, fills, hb⟩ := consumes_readFront _ _ _ first
  obtain ⟨b', rfl, fields, methods, attributes, rfl, hb'⟩ := consumes_readTables d _ _ _ second
  refine ⟨count, fills, ?_⟩
  rw [hb, hb']
  simp only [opening, content, List.append_nil, List.append_assoc]

theorem declaredSize_append {front back : Bytes} (length : front.length = 8) (count : UInt16) :
    Resolver.declaredSize (front ++ (Bytes.ofU2 count ++ back)) = count := by
  have byte (i : ℕ) : (front ++ (Bytes.ofU2 count ++ back)).getD (8 + i) 0 =
      (Bytes.ofU2 count ++ back).getD i 0 := by
    rw [List.getD_append_right _ _ _ _ (by omega), length, Nat.add_sub_cancel_left]
  rw [Resolver.declaredSize, byte 0, byte 1]
  exact word_ofU2 count

/-- Reading and writing give back all but the size of the pool, which is that of the slots filled;
and it is the declared one unless that is 0 or a wide constant starts in the last slot. -/
theorem write_of_parse {bytes : Bytes} {c : ClassFile} (parsed : parse bytes = .ok c) :
    c.write.length = bytes.length ∧
      (∀ i, i ≠ 8 → i ≠ 9 → c.write[i]? = bytes[i]?) ∧
      (Resolver.declaredSize c.write).toNat = c.pool.size % 0x10000 ∧
      (c.write = bytes ↔ 1 ≤ (Resolver.declaredSize bytes).toNat ∧
        ∀ k, c.pool.slots[(Resolver.declaredSize bytes).toNat - 1]? = some k →
          k.isWide = false) := by
  obtain ⟨count, fills, rfl⟩ := bytes_of_parse parsed
  have front : c.opening.length = 8 := rfl
  rw [declaredSize_append front, write_eq, declaredSize_append front]
  refine ⟨?length, ?bytes, UInt16.toNat_ofNat', ?same⟩
  case length => simp only [List.length_append, Bytes.ofU2, List.length_cons, List.length_nil]
  case bytes =>
    intro i high low
    rcases Nat.lt_or_ge i 8 with before | behind
    · rw [List.getElem?_append_left (by omega), List.getElem?_append_left (by omega)]
    · obtain ⟨j, rfl⟩ := Nat.exists_eq_add_of_le (show 10 ≤ i by omega)
      have later (n : UInt16) :
          (c.opening ++ (Bytes.ofU2 n ++ c.content))[10 + j]? = c.content[j]? := by
        have size : (c.opening ++ Bytes.ofU2 n).length = 10 := rfl
        rw [← List.append_assoc, List.getElem?_append_right (by omega), size,
          Nat.add_sub_cancel_left]
      rw [later, later]
  case same =>
    rw [← fills.ofNat_size_eq_iff (storable_of_parse parsed).1.pool, List.append_cancel_left_eq,
      List.append_cancel_right_eq]
    exact ofU2_inj

/-- A long starts in the last of two declared slots, so that three are filled. -/
theorem write_of_parse_long :
    let back : Bytes := [5, 0, 0, 0, 0, 0, 0, 0, 7, 0, 0x21, 0, 0, 0, 0, 0, 0, 0, 0, 0, 0, 0, 0]
    let file (count : UInt8) : Bytes := [0xCA, 0xFE, 0xBA, 0xBE, 0, 0, 0, 52, 0, count] ++ back
    let c : ClassFile :=
      ⟨0, 52, ⟨#[.unusable, .long 7, .unusable], ∅⟩, 0x21, 0, 0, [], [], [], []⟩
    parse (file 2) = .ok c ∧ c.write = file 3 ∧ c.write.length = (file 2).length ∧
      c.write ≠ file 2 := by
  intro back file c
  have parsed : parse (file 2) = .ok c := by decide +kernel
  have written : c.write = file 3 := by decide +kernel
  obtain ⟨length, _, _, same⟩ := write_of_parse parsed
  have last : c.pool.slots[(Resolver.declaredSize (file 2)).toNat - 1]? = some (.long 7) := by
    decide +kernel
  refine ⟨parsed, written, length, fun unchanged => ?_⟩
  have narrow : (Constant.long 7).isWide = false := (same.mp unchanged).2 _ last
  exact nomatch narrow

end ClassFile

end ModRemap
