import Mathlib
import ModRemap.ClassFile.Build
import ModRemap.Proofs.Encodable

/-! Building a class call by call, within the sizes of a class file, gives a class that is read back
as it was written. -/

namespace ModRemap

/-- An edit that leaves a state with `P` where it found one, whether it succeeds or fails. -/
def Maintains {σ α : Type} (P : σ → Prop) (x : ExceptT ClassError (StateM σ) α) : Prop :=
  ∀ s, P s → P (x.run s).2

section

variable {σ α β : Type} {P : σ → Prop}

theorem maintains_pure (a : α) : Maintains P (pure a) := fun _ h => h

theorem maintains_get : Maintains P get := fun _ h => h

theorem maintains_modify {f : σ → σ} (h : ∀ s, P s → P (f s)) : Maintains P (modify f) := h

theorem Maintains.bind {x : ExceptT ClassError (StateM σ) α}
    {f : α → ExceptT ClassError (StateM σ) β} (hx : Maintains P x)
    (hf : ∀ a, Maintains P (f a)) : Maintains P (x >>= f) := by
  intro s hs
  have first : P (x.run s).2 := hx s hs
  show P (ExceptT.bindCont f (x.run s).1 (x.run s).2).2
  rcases ran : x.run s with ⟨e | a, s'⟩
  · rwa [ran] at first
  · rw [ran] at first
    exact hf a s' first

end

/-- A text whose length fits into its field. -/
def Short (s : String) : Prop := (ModifiedUtf8.encode s).length ≤ 65535

instance (s : String) : Decidable (Short s) := inferInstanceAs (Decidable (_ ≤ _))

namespace ConstantPool

theorem maintains_push {k : Constant} (usable : k ≠ .unusable) (fits : k.Storable) :
    Maintains Regular (push k) := by
  intro p h
  show Regular (if maxSize < p.size + k.slots then (_, p) else (_, p.append k)).2
  split_ifs with full
  · exact h
  · obtain ⟨storable, _⟩ := regular_iff.mp h
    have slots : (p.appendRead k).slots = (p.append k).slots := appendRead_slots p k
    refine regular_iff.mpr ⟨(storable.appendRead usable fits).of_slots_eq slots, ?_⟩
    rw [size_append]
    exact not_lt.mp full

theorem maintains_internText {s : String} (short : Short s) : Maintains Regular (internText s) := by
  refine maintains_get.bind fun p => ?_
  cases p.texts.get? (ModifiedUtf8.encode s) with
  | some index => exact maintains_pure index
  | none =>
    have added : Maintains Regular (push (.utf8 (ModifiedUtf8.encode s))) :=
      maintains_push nofun (Nat.lt_succ_of_le short)
    exact added.bind fun index => .bind
      (maintains_modify fun _ h => ⟨h.first, h.unusable, h.constants, h.size⟩)
      fun _ => maintains_pure index

theorem maintains_intern {k : Constant} (usable : k ≠ .unusable) (fits : k.Storable) :
    Maintains Regular (intern k) := by
  refine maintains_get.bind fun p => ?_
  cases p.slots.findIdx? (· = k) with
  | some i => exact maintains_pure _
  | none => exact maintains_push usable fits

theorem maintains_internClass {name : String} (short : Short name) :
    Maintains Regular (internClass name) :=
  (maintains_internText short).bind fun _ => maintains_intern nofun trivial

theorem maintains_internNameAndType {name descriptor : String} (short : Short name)
    (short' : Short descriptor) : Maintains Regular (internNameAndType name descriptor) :=
  (maintains_internText short).bind fun _ => (maintains_internText short').bind fun _ =>
    maintains_intern nofun trivial

end ConstantPool

namespace ClassFile

/-- What attributes stand in: the class, or the field or method at a position. -/
inductive Holder where
  | whole
  | field (i : ℕ)
  | method (i : ℕ)

/-- Puts an attribute behind those that its holder has. -/
def attach (holder : Holder) (a : Attribute) (c : ClassFile) : ClassFile :=
  let add (m : Member) : Member := { m with attributes := m.attributes ++ [a] }
  match holder with
  | .whole => { c with attributes := c.attributes ++ [a] }
  | .field i => { c with fields := c.fields.modify i add }
  | .method i => { c with methods := c.methods.modify i add }

/-- The ways in which a class is built. -/
inductive Call where
  | addInterface (name : String)
  | addField (access : UInt16) (name descriptor : String)
  | addMethod (access : UInt16) (name descriptor : String)
  | sign (holder : Holder) (signature : String)
  | attach (holder : Holder) (a : Attribute)
  | internText (s : String)
  | internClass (name : String)
  | internNameAndType (name descriptor : String)
  | push (k : Constant)

namespace Call

def run : Call → Edit Unit
  | addInterface name => ClassFile.addInterface name
  | addField access name descriptor => ClassFile.addField access name descriptor
  | addMethod access name descriptor => ClassFile.addMethod access name descriptor
  | sign holder signature => do
    let a ← signatureAttribute signature
    modify (ClassFile.attach holder a)
  | attach holder a => modify (ClassFile.attach holder a)
  | internText s => discard (onPool (ConstantPool.internText s))
  | internClass name => discard (onPool (ConstantPool.internClass name))
  | internNameAndType name descriptor =>
    discard (onPool (ConstantPool.internNameAndType name descriptor))
  | push k => discard (onPool (ConstantPool.push k))

/-- What a call adds has room in a class file, and is no slot without a constant. -/
def Fits : Call → Prop
  | addInterface name => Short name
  | addField _ name descriptor => Short name ∧ Short descriptor
  | addMethod _ name descriptor => Short name ∧ Short descriptor
  | sign _ signature => Short signature
  | attach _ a => a.info.length < 2 ^ 32
  | internText s => Short s
  | internClass name => Short name
  | internNameAndType name descriptor => Short name ∧ Short descriptor
  | push k => k ≠ .unusable ∧ k.Storable

end Call

instance (call : Call) : Decidable call.Fits :=
  match call with
  | .addInterface name => inferInstanceAs (Decidable (Short name))
  | .addField _ name descriptor => inferInstanceAs (Decidable (Short name ∧ Short descriptor))
  | .addMethod _ name descriptor => inferInstanceAs (Decidable (Short name ∧ Short descriptor))
  | .sign _ signature => inferInstanceAs (Decidable (Short signature))
  | .attach _ a => inferInstanceAs (Decidable (a.info.length < 2 ^ 32))
  | .internText s => inferInstanceAs (Decidable (Short s))
  | .internClass name => inferInstanceAs (Decidable (Short name))
  | .internNameAndType name descriptor =>
    inferInstanceAs (Decidable (Short name ∧ Short descriptor))
  | .push k => inferInstanceAs (Decidable (k ≠ .unusable ∧ k.Storable))

/-- What every call keeps. The lengths of the lists of a class are not looked at when it is built. -/
structure Formed (c : ClassFile) : Prop where
  pool : c.pool.Regular
  bodies : ∀ a ∈ c.allAttributes, a.info.length < 2 ^ 32

theorem Formed.with_pool {c : ClassFile} (h : c.Formed) {p : ConstantPool} (regular : p.Regular) :
    Formed { c with pool := p } :=
  ⟨regular, h.bodies⟩

theorem maintains_onPool {α : Type} {change : ConstantPool.Edit α}
    (h : Maintains ConstantPool.Regular change) : Maintains Formed (onPool change) :=
  fun c formed => formed.with_pool (h c.pool formed.pool)

theorem maintains_discard {α : Type} {x : Edit α} (h : Maintains Formed x) :
    Maintains Formed (discard x) :=
  h.bind fun _ => maintains_pure ()

theorem mem_modify {α : Type} {f : α → α} {l : List α} {i : ℕ} {a : α} (h : a ∈ l.modify i f) :
    a ∈ l ∨ ∃ b ∈ l, a = f b := by
  induction l generalizing i with
  | nil =>
    rw [List.modify_nil] at h
    exact nomatch h
  | cons b l ih =>
    cases i with
    | zero =>
      rw [List.modify_zero_cons] at h
      rcases List.mem_cons.mp h with rfl | h
      · exact .inr ⟨b, List.mem_cons_self, rfl⟩
      · exact .inl (List.mem_cons_of_mem b h)
    | succ i =>
      rw [List.modify_succ_cons] at h
      rcases List.mem_cons.mp h with rfl | h
      · exact .inl List.mem_cons_self
      · rcases ih h with h | ⟨b', hb, rfl⟩
        · exact .inl (List.mem_cons_of_mem b h)
        · exact .inr ⟨b', List.mem_cons_of_mem b hb, rfl⟩

theorem mem_allAttributes {c : ClassFile} {a : Attribute} : a ∈ c.allAttributes ↔
    a ∈ c.attributes ∨ (∃ m ∈ c.fields, a ∈ m.attributes) ∨ ∃ m ∈ c.methods, a ∈ m.attributes := by
  simp only [allAttributes, List.mem_append, List.mem_flatMap, or_and_right, exists_or]

/-- No attribute is there afterwards but those that were, and the one that is attached. -/
theorem mem_allAttributes_attach {holder : Holder} {a b : Attribute} {c : ClassFile}
    (h : b ∈ (c.attach holder a).allAttributes) : b ∈ c.allAttributes ∨ b = a := by
  have member {i : ℕ} {ms : List Member}
      (h : ∃ m ∈ ms.modify i fun m => { m with attributes := m.attributes ++ [a] },
        b ∈ m.attributes) : (∃ m ∈ ms, b ∈ m.attributes) ∨ b = a := by
    obtain ⟨m, listed, hb⟩ := h
    rcases mem_modify listed with old | ⟨m', old, rfl⟩
    · exact .inl ⟨m, old, hb⟩
    · rcases List.mem_append.mp hb with hb | hb
      · exact .inl ⟨m', old, hb⟩
      · exact .inr (List.mem_singleton.mp hb)
  rw [mem_allAttributes] at h ⊢
  cases holder with
  | whole =>
    rcases h with h | h
    · rcases List.mem_append.mp h with h | h
      · exact .inl (.inl h)
      · exact .inr (List.mem_singleton.mp h)
    · exact .inl (.inr h)
  | field i =>
    rcases h with h | h | h
    · exact .inl (.inl h)
    · exact (member h).imp (fun h => .inr (.inl h)) id
    · exact .inl (.inr (.inr h))
  | method i =>
    rcases h with h | h | h
    · exact .inl (.inl h)
    · exact .inl (.inr (.inl h))
    · exact (member h).imp (fun h => .inr (.inr h)) id

theorem maintains_attach {holder : Holder} {a : Attribute} (short : a.info.length < 2 ^ 32) :
    Maintains Formed (modify (attach holder a) : Edit Unit) := by
  refine maintains_modify fun c formed => ⟨?_, fun b hb => ?_⟩
  · have same : (c.attach holder a).pool = c.pool := by cases holder <;> rfl
    exact same ▸ formed.pool
  · rcases mem_allAttributes_attach hb with hb | rfl
    · exact formed.bodies b hb
    · exact short

theorem maintains_addInterface {name : String} (short : Short name) :
    Maintains Formed (addInterface name) :=
  (maintains_onPool (ConstantPool.maintains_internClass short)).bind fun _ =>
    maintains_modify fun _ h => ⟨h.pool, h.bodies⟩

/-- A new member comes without attributes, wherever it is put. -/
theorem maintains_newMember {access : UInt16} {name descriptor : String} (short : Short name)
    (short' : Short descriptor) {put : Member → ClassFile → ClassFile}
    (keeps : ∀ m c, m.attributes = [] → c.Formed → (put m c).Formed) :
    Maintains Formed (newMember access name descriptor >>= fun m => modify (put m)) := by
  rw [newMember]
  simp only [bind_assoc, pure_bind]
  exact (maintains_onPool (ConstantPool.maintains_internText short)).bind fun _ =>
    (maintains_onPool (ConstantPool.maintains_internText short')).bind fun _ =>
    maintains_modify fun c formed => keeps _ c rfl formed

theorem maintains_run {call : Call} (fits : call.Fits) : Maintains Formed call.run := by
  cases call with
  | addInterface name => exact maintains_addInterface fits
  | addField access name descriptor =>
    refine maintains_newMember fits.1 fits.2 fun m c bare h => ⟨h.pool, fun a ha => h.bodies a ?_⟩
    simpa [allAttributes, bare] using ha
  | addMethod access name descriptor =>
    refine maintains_newMember fits.1 fits.2 fun m c bare h => ⟨h.pool, fun a ha => h.bodies a ?_⟩
    simpa [allAttributes, bare] using ha
  | sign holder signature =>
    have name : Short "Signature" := by decide +kernel
    have text {s : String} (short : Short s) :=
      maintains_onPool (ConstantPool.maintains_internText short)
    show Maintains Formed (signatureAttribute signature >>= fun a => modify (attach holder a))
    rw [signatureAttribute]
    simp only [bind_assoc, pure_bind]
    exact (text name).bind fun _ => (text fits).bind fun _ =>
      maintains_attach (show 2 < 2 ^ 32 by decide)
  | attach holder a => exact maintains_attach fits
  | internText s =>
    exact maintains_discard (maintains_onPool (ConstantPool.maintains_internText fits))
  | internClass name =>
    exact maintains_discard (maintains_onPool (ConstantPool.maintains_internClass fits))
  | internNameAndType name descriptor =>
    exact maintains_discard
      (maintains_onPool (ConstantPool.maintains_internNameAndType fits.1 fits.2))
  | push k => exact maintains_discard (maintains_onPool (ConstantPool.maintains_push fits.1 fits.2))

theorem formed_blank : blank.Formed where
  pool := ConstantPool.regular_iff.mpr ⟨ConstantPool.storable_empty, by decide⟩
  bodies := nofun

theorem formed_of_make {name : String} {superclass : Option String} {c : ClassFile}
    (short : Short name) (short' : ∀ s, superclass = some s → Short s)
    (made : make name superclass = .ok c) : c.Formed := by
  have kept : Maintains Formed (init name superclass) := by
    have pool {s : String} (short : Short s) :=
      maintains_onPool (ConstantPool.maintains_internClass short)
    refine (pool short).bind fun _ =>
      .bind (maintains_modify fun _ h => ⟨h.pool, h.bodies⟩) fun _ => ?_
    cases superclass with
    | none => exact maintains_pure ()
    | some s =>
      exact (pool (short' s rfl)).bind fun _ => maintains_modify fun _ h => ⟨h.pool, h.bodies⟩
  have whole : ((init name superclass).run blank).2 = c := by
    unfold make at made
    rcases ran : (init name superclass).run blank with ⟨e | u, c'⟩
    · rw [ran] at made
      exact nomatch made
    · rw [ran] at made
      exact Except.ok.inj made
  exact whole ▸ kept blank formed_blank

/-- The class after some calls. One that fails leaves what it has added to the pool. -/
def after (c : ClassFile) (calls : List Call) : ClassFile :=
  calls.foldl (fun c call => (call.run.run c).2) c

theorem Formed.after {c : ClassFile} (h : c.Formed) {calls : List Call}
    (fits : ∀ call ∈ calls, call.Fits) : (c.after calls).Formed := by
  induction calls generalizing c with
  | nil => exact h
  | cons call calls ih =>
    obtain ⟨first, rest⟩ := List.forall_mem_cons.mp fits
    exact ih (maintains_run first c h) rest

/-- Reading undoes writing for the classes within the sizes of a class file, and for no others; and
calls that fit make only such classes, as long as no list of the class grows too long. -/
theorem encodable_after :
    (∀ c : ClassFile, c.Encodable ↔
      ∃ p, p.slots = c.pool.slots ∧ parse c.write = .ok { c with pool := p }) ∧
    ∀ (name : String) (superclass : Option String) (c : ClassFile) (calls : List Call),
      Short name → (∀ s, superclass = some s → Short s) → make name superclass = .ok c →
      (∀ call ∈ calls, call.Fits) → (c.after calls).Counted → (c.after calls).Encodable := by
  refine ⟨fun c => parse_write_iff.symm, ?_⟩
  intro name superclass c calls short short' made fits counted
  have formed := (formed_of_make short short' made).after fits
  exact ⟨formed.pool, counted, formed.bodies⟩

/-- A wide constant stands between those of the members, one of which is signed. -/
theorem encodable_after_signed :
    let c := ((init "A" (some "O")).run blank).2
    let calls : List Call := [.addInterface "I", .addField 2 "f" "J", .push (.long 7),
      .push (.memberRef 9 2 0), .addMethod 1 "m" "()V", .sign (.method 0) "<T:LO;>()V",
      .attach .whole ⟨1, [0, 1, 2]⟩]
    let c' := c.after calls
    make "A" (some "O") = .ok c ∧ (∀ call ∈ calls, call.Fits) ∧ c'.Encodable ∧
      c'.pool.slots[9]? = some (.long 7) ∧ c'.methods.map Member.attributes = [[⟨14, [0, 15]⟩]] ∧
      ∃ p, p.slots = c'.pool.slots ∧ parse c'.write = .ok { c' with pool := p } := by
  intro c calls c'
  obtain ⟨reads, builds⟩ := encodable_after
  have made : make "A" (some "O") = .ok c := by decide +kernel
  have short : Short "A" := by decide +kernel
  have short' (s : String) (h : some "O" = some s) : Short s := by
    obtain rfl := Option.some.inj h
    decide +kernel
  have fits : ∀ call ∈ calls, call.Fits := by decide +kernel
  have counted : c'.Counted := by
    refine ⟨?_, ?_, ?_, ?_, ?_⟩
    all_goals decide +kernel
  have encodable := builds "A" (some "O") c calls short short' made fits counted
  exact ⟨made, fits, encodable, by decide +kernel, by decide +kernel, (reads c').mp encodable⟩

end ClassFile

end ModRemap
