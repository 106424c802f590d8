import Mathlib
import ModRemap.Proofs.Drafting

/-! What becomes of a method body. Its variables are given the mapped types, and every other byte is
where it was. -/

namespace ModRemap.Resolver

open Drafting

variable {r : Resolver} {p q : ConstantPool}

/-- Entries of a table of local variables, before and after. -/
inductive LocalsImage (r : Resolver) (p : ConstantPool) (table : LocalTable) :
    Nat → Bytes → Bytes → Prop
  | nil : LocalsImage r p table 0 [] []
  | cons {n : ℕ} {before after rest rest' : Bytes} {type type' : UInt16} {old : String}
      (front : before.length = 6) (back : after.length = 2)
      (named : p.text type = .ok old) (renamed : p.text type' = .ok (r.localType table old))
      (others : LocalsImage r p table n rest rest') :
      LocalsImage r p table (n + 1) (before ++ Bytes.ofU2 type ++ after ++ rest)
        (before ++ Bytes.ofU2 type' ++ after ++ rest')

/-- The body of an attribute of a method body, before and after. -/
inductive BodyImage (r : Resolver) (p : ConstantPool) (name : String) : Bytes → Bytes → Prop
  | other (body : Bytes) (plain : LocalTable.ofName? name = none) : BodyImage r p name body body
  | locals {table : LocalTable} {count : UInt16} {entries entries' : Bytes}
      (named : LocalTable.ofName? name = some table)
      (image : LocalsImage r p table count.toNat entries entries') :
      BodyImage r p name (Bytes.ofU2 count ++ entries) (Bytes.ofU2 count ++ entries')

/-- The attributes of a method body, before and after. -/
inductive BodiesImage (r : Resolver) (p : ConstantPool) : Nat → Bytes → Bytes → Prop
  | nil : BodiesImage r p 0 [] []
  | cons {n : ℕ} {index : UInt16} {length : UInt32} {name : String}
      {body body' rest rest' : Bytes}
      (named : p.text index = .ok name) (image : BodyImage r p name body body')
      (others : BodiesImage r p n rest rest') :
      BodiesImage r p (n + 1) (Bytes.ofU2 index ++ Bytes.ofU4 length ++ body ++ rest)
        (Bytes.ofU2 index ++ Bytes.ofU4 length ++ body' ++ rest')

/-- A method body, before and after. Its attributes follow instructions and handlers, which stay. -/
inductive CodeImage (r : Resolver) (p : ConstantPool) : Bytes → Bytes → Prop
  | intro {front bodies bodies' rest : Bytes} {count : UInt16}
      (read : readCodeFront (front ++ bodies ++ rest) = .ok (count, bodies ++ rest))
      (image : BodiesImage r p count.toNat bodies bodies') :
      CodeImage r p (front ++ bodies ++ rest) (front ++ bodies' ++ rest)

theorem LocalsImage.length_eq {table : LocalTable} {n : ℕ} {b b' : Bytes}
    (h : LocalsImage r p table n b b') : b'.length = b.length := by
  induction h with
  | nil => rfl
  | cons _ _ _ _ _ ih =>
    simp only [List.length_append, ih]
    rfl

theorem LocalsImage.mono (evolves : p.Evolves q) {table : LocalTable} {n : ℕ} {b b' : Bytes}
    (h : LocalsImage r p table n b b') : LocalsImage r q table n b b' := by
  induction h with
  | nil => exact .nil
  | cons front back named renamed _ ih =>
    exact .cons front back (evolves.text named) (evolves.text renamed) ih

theorem BodyImage.length_eq {name : String} {b b' : Bytes} (h : BodyImage r p name b b') :
    b'.length = b.length := by
  cases h with
  | other => rfl
  | locals _ image => rw [List.length_append, List.length_append, image.length_eq]

theorem BodyImage.mono (evolves : p.Evolves q) {name : String} {b b' : Bytes}
    (h : BodyImage r p name b b') : BodyImage r q name b b' := by
  cases h with
  | other _ plain => exact .other _ plain
  | locals named image => exact .locals named (image.mono evolves)

theorem BodiesImage.length_eq {n : ℕ} {b b' : Bytes} (h : BodiesImage r p n b b') :
    b'.length = b.length := by
  induction h with
  | nil => rfl
  | cons _ image _ ih => simp only [List.length_append, image.length_eq, ih]

theorem BodiesImage.mono (evolves : p.Evolves q) {n : ℕ} {b b' : Bytes}
    (h : BodiesImage r p n b b') : BodiesImage r q n b b' := by
  induction h with
  | nil => exact .nil
  | cons named image _ ih => exact .cons (evolves.text named) (image.mono evolves) ih

theorem CodeImage.length_eq {b b' : Bytes} (h : CodeImage r p b b') : b'.length = b.length := by
  cases h with
  | intro _ image => simp only [List.length_append, image.length_eq]

theorem CodeImage.mono (evolves : p.Evolves q) {b b' : Bytes} (h : CodeImage r p b b') :
    CodeImage r q b b' := by
  cases h with
  | intro read image => exact .intro read (image.mono evolves)

/-! Each part of a body takes some bytes and gives their image. -/

variable {d d' : Draft}

theorem readLocal_eq_ok {s t before after : Bytes} {type : UInt16}
    (h : readLocal s = .ok ((before, type, after), t)) :
    before.length = 6 ∧ after.length = 2 ∧ s = before ++ Bytes.ofU2 type ++ after ++ t := by
  obtain ⟨b, s₁, first, h⟩ := stateT_bind_eq_ok.mp h
  obtain ⟨i, s₂, second, h⟩ := stateT_bind_eq_ok.mp h
  obtain ⟨a, s₃, third, h⟩ := stateT_bind_eq_ok.mp h
  obtain ⟨read, rfl⟩ := Prod.mk.inj (Except.ok.inj h)
  obtain ⟨rfl, rest⟩ := Prod.mk.inj read
  obtain ⟨rfl, rfl⟩ := Prod.mk.inj rest
  obtain ⟨rfl, front⟩ := Reader.take_eq_ok first
  obtain rfl := Reader.u2_eq_ok second
  obtain ⟨rfl, back⟩ := Reader.take_eq_ok third
  exact ⟨front, back, by simp only [List.append_assoc]⟩

/-- The first variable of a table is remapped, and the others after it. -/
theorem remapLocals_succ_eq_ok {table : LocalTable} {n : ℕ} {s out t : Bytes}
    (h : r.remapLocals table (n + 1) s d = .ok ((out, t), d')) :
    ∃ (before after s' : Bytes) (type type' : UInt16) (old : String) (d₁ : Draft) (out' : Bytes),
      before.length = 6 ∧ after.length = 2 ∧ s = before ++ Bytes.ofU2 type ++ after ++ s' ∧
      d.pool.text type = .ok old ∧ retext type old (r.localType table old) d = .ok (type', d₁) ∧
      r.remapLocals table n s' d₁ = .ok ((out', t), d') ∧
      out = before ++ Bytes.ofU2 type' ++ after ++ out' := by
  obtain ⟨⟨⟨before, type, after⟩, s'⟩, _, taken, h⟩ := stateT_bind_eq_ok.mp h
  obtain ⟨old, _, looked, h⟩ := stateT_bind_eq_ok.mp h
  obtain ⟨type', d₁, replaced, h⟩ := stateT_bind_eq_ok.mp h
  obtain ⟨⟨out', _⟩, _, others, h⟩ := stateT_bind_eq_ok.mp h
  obtain ⟨same, rfl⟩ := pure_eq_ok.mp h
  obtain ⟨rfl, rfl⟩ := Prod.mk.inj same
  obtain ⟨read, rfl⟩ := reading_eq_ok.mp taken
  obtain ⟨named, rfl⟩ := text_eq_ok.mp looked
  obtain ⟨front, back, rfl⟩ := readLocal_eq_ok read
  exact ⟨before, after, s', type, type', old, d₁, out', front, back, rfl, named, replaced, others, rfl⟩

theorem localType_alters {table : LocalTable} {s : String} (h : r.localType table s ≠ s) :
    r.Alters := by
  cases table with
  | descriptors => exact .descriptor s h
  | signatures => exact .signature s h

theorem remapLocals_spec {table : LocalTable} {n : ℕ} {s out t : Bytes} (sound : d.pool.Sound)
    (h : r.remapLocals table n s d = .ok ((out, t), d')) :
    ∃ used, s = used ++ t ∧ d.Adds r d' ∧ (d'.changed = false → out = used) ∧
      LocalsImage r d'.pool table n used out := by
  induction n generalizing s out d with
  | zero =>
    obtain ⟨same, rfl⟩ := pure_eq_ok.mp h
    obtain ⟨rfl, rfl⟩ := Prod.mk.inj same
    exact ⟨[], rfl, .refl sound, fun _ => rfl, .nil⟩
  | succ n ih =>
    obtain ⟨before, after, s', type, type', old, d₁, out', front, back, rfl, named, replaced, others,
      rfl⟩ := remapLocals_succ_eq_ok h
    obtain ⟨first, renamed⟩ := retext_spec sound named localType_alters replaced
    obtain ⟨used, rfl, step, still, image⟩ := ih first.step.sound others
    refine ⟨before ++ Bytes.ofU2 type ++ after ++ used, by simp only [List.append_assoc],
      first.step.trans step, fun unchanged => ?_, ?_⟩
    · rw [first.still (step.changed_eq_false unchanged), still unchanged]
    · exact .cons front back (step.evolves.text (first.step.evolves.text named))
        (step.evolves.text renamed) image

theorem remapBody_of_none {name : String} {length : ℕ} {s out t : Bytes}
    (other : LocalTable.ofName? name = none) (h : r.remapBody name length s d = .ok ((out, t), d')) :
    Reader.take length s = .ok (out, t) ∧ d' = d := by
  rw [remapBody, other] at h
  exact reading_eq_ok.mp h

theorem remapBody_of_table {name : String} {length : ℕ} {s out t : Bytes} {table : LocalTable}
    (kind : LocalTable.ofName? name = some table)
    (h : r.remapBody name length s d = .ok ((out, t), d')) :
    ∃ (count : UInt16) (s' out' : Bytes), s = Bytes.ofU2 count ++ s' ∧
      r.remapLocals table count.toNat s' d = .ok ((out', t), d') ∧ out = Bytes.ofU2 count ++ out' := by
  rw [remapBody, kind] at h
  obtain ⟨⟨⟨front, count⟩, s'⟩, _, taken, h⟩ := stateT_bind_eq_ok.mp h
  obtain ⟨⟨out', _⟩, _, locals, h⟩ := stateT_bind_eq_ok.mp h
  obtain ⟨same, rfl⟩ := pure_eq_ok.mp h
  obtain ⟨rfl, rfl⟩ := Prod.mk.inj same
  obtain ⟨read, rfl⟩ := reading_eq_ok.mp taken
  obtain ⟨rfl, counted⟩ := Reader.raw_eq_ok Reader.takes_u2 read
  obtain rfl := List.append_cancel_right (Reader.u2_eq_ok counted)
  exact ⟨count, s', out', rfl, locals, rfl⟩

theorem remapBody_spec {name : String} {length : ℕ} {s out t : Bytes} (sound : d.pool.Sound)
    (h : r.remapBody name length s d = .ok ((out, t), d')) :
    ∃ used, s = used ++ t ∧ d.Adds r d' ∧ (d'.changed = false → out = used) ∧
      BodyImage r d'.pool name used out := by
  cases named : LocalTable.ofName? name with
  | none =>
    obtain ⟨read, rfl⟩ := remapBody_of_none named h
    exact ⟨out, (Reader.take_eq_ok read).1, .refl sound, fun _ => rfl, .other out named⟩
  | some table =>
    obtain ⟨count, s', out', rfl, locals, rfl⟩ := remapBody_of_table named h
    obtain ⟨used, rfl, step, still, image⟩ := remapLocals_spec sound locals
    refine ⟨Bytes.ofU2 count ++ used, by rw [List.append_assoc], step, fun unchanged => ?_,
      .locals named image⟩
    rw [still unchanged]

theorem takes_readAttributeFront : Reader.Takes readAttributeFront :=
  Reader.takes_u2.bind fun _ => Reader.takes_u4.bind fun _ => Reader.takes_pure _

theorem readAttributeFront_eq_ok {s t : Bytes} {index : UInt16} {length : UInt32}
    (h : readAttributeFront s = .ok ((index, length), t)) :
    s = Bytes.ofU2 index ++ Bytes.ofU4 length ++ t := by
  obtain ⟨i, s₁, first, h⟩ := stateT_bind_eq_ok.mp h
  obtain ⟨n, s₂, second, h⟩ := stateT_bind_eq_ok.mp h
  obtain ⟨read, rfl⟩ := Prod.mk.inj (Except.ok.inj h)
  obtain ⟨rfl, rfl⟩ := Prod.mk.inj read
  obtain rfl := Reader.u2_eq_ok first
  obtain rfl := Reader.u4_eq_ok second
  exact (List.append_assoc ..).symm

/-- The first attribute of a body is remapped, and the others after it. -/
theorem remapAttributes_succ_eq_ok {n : ℕ} {s out t : Bytes}
    (h : r.remapAttributes (n + 1) s d = .ok ((out, t), d')) :
    ∃ (index : UInt16) (length : UInt32) (name : String) (s₁ body s₂ out' : Bytes) (d₁ : Draft),
      s = Bytes.ofU2 index ++ Bytes.ofU4 length ++ s₁ ∧
      readAttributeFront s = .ok ((index, length), s₁) ∧ d.pool.text index = .ok name ∧
      r.remapBody name length.toNat s₁ d = .ok ((body, s₂), d₁) ∧
      r.remapAttributes n s₂ d₁ = .ok ((out', t), d') ∧
      out = Bytes.ofU2 index ++ Bytes.ofU4 length ++ body ++ out' := by
  obtain ⟨⟨⟨front, index, length⟩, s₁⟩, _, taken, h⟩ := stateT_bind_eq_ok.mp h
  obtain ⟨name, _, looked, h⟩ := stateT_bind_eq_ok.mp h
  obtain ⟨⟨body, s₂⟩, d₁, inner, h⟩ := stateT_bind_eq_ok.mp h
  obtain ⟨⟨out', _⟩, _, others, h⟩ := stateT_bind_eq_ok.mp h
  obtain ⟨same, rfl⟩ := pure_eq_ok.mp h
  obtain ⟨rfl, rfl⟩ := Prod.mk.inj same
  obtain ⟨read, rfl⟩ := reading_eq_ok.mp taken
  obtain ⟨named, rfl⟩ := text_eq_ok.mp looked
  obtain ⟨rfl, fields⟩ := Reader.raw_eq_ok takes_readAttributeFront read
  obtain rfl := List.append_cancel_right (readAttributeFront_eq_ok fields)
  exact ⟨index, length, name, s₁, body, s₂, out', d₁, rfl, fields, named, inner, others, rfl⟩

theorem remapAttributes_spec {n : ℕ} {s out t : Bytes} (sound : d.pool.Sound)
    (h : r.remapAttributes n s d = .ok ((out, t), d')) :
    ∃ used, s = used ++ t ∧ d.Adds r d' ∧ (d'.changed = false → out = used) ∧
      BodiesImage r d'.pool n used out := by
  induction n generalizing s out d with
  | zero =>
    obtain ⟨same, rfl⟩ := pure_eq_ok.mp h
    obtain ⟨rfl, rfl⟩ := Prod.mk.inj same
    exact ⟨[], rfl, .refl sound, fun _ => rfl, .nil⟩
  | succ n ih =>
    obtain ⟨index, length, name, s₁, body', s₂, out', d₁, rfl, _, named, inner, others, rfl⟩ :=
      remapAttributes_succ_eq_ok h
    obtain ⟨body, rfl, first, stays, bodyImage⟩ := remapBody_spec sound inner
    obtain ⟨used, rfl, step, still, image⟩ := ih first.sound others
    refine ⟨Bytes.ofU2 index ++ Bytes.ofU4 length ++ body ++ used,
      by simp only [List.append_assoc], first.trans step, fun unchanged => ?_, ?_⟩
    · rw [stays (step.changed_eq_false unchanged), still unchanged]
    · exact .cons (step.evolves.text (first.evolves.text named)) (bodyImage.mono step.evolves) image

theorem takes_readCodeFront : Reader.Takes readCodeFront :=
  (Reader.takes_take _).bind fun _ => Reader.takes_u4.bind fun _ => (Reader.takes_take _).bind
    fun _ => Reader.takes_u2.bind fun _ => (Reader.takes_take _).bind fun _ => Reader.takes_u2

theorem remapCode_eq_ok {info out : Bytes} (h : r.remapCode info d = .ok (out, d')) :
    ∃ (front s out' rest : Bytes) (count : UInt16), info = front ++ s ∧
      readCodeFront info = .ok (count, s) ∧
      r.remapAttributes count.toNat s d = .ok ((out', rest), d') ∧ out = front ++ out' ++ rest := by
  obtain ⟨⟨⟨front, count⟩, s⟩, _, taken, h⟩ := stateT_bind_eq_ok.mp h
  obtain ⟨⟨out', rest⟩, _, attributes, h⟩ := stateT_bind_eq_ok.mp h
  obtain ⟨rfl, rfl⟩ := pure_eq_ok.mp h
  obtain ⟨read, rfl⟩ := reading_eq_ok.mp taken
  obtain ⟨split, counted⟩ := Reader.raw_eq_ok takes_readCodeFront read
  exact ⟨front, s, out', rest, count, split, counted, attributes, rfl⟩

theorem remapCode_faithful : Faithful r r.remapCode (CodeImage r) := by
  intro info d info' d' sound h
  obtain ⟨front, s, out, rest, count, rfl, counted, attributes, rfl⟩ := remapCode_eq_ok h
  obtain ⟨used, rfl, step, still, image⟩ := remapAttributes_spec sound attributes
  rw [← List.append_assoc] at counted ⊢
  refine ⟨step, fun unchanged => ?_, .intro counted image⟩
  rw [still unchanged]

end ModRemap.Resolver
