import Mathlib
import ModRemap.Proofs.PoolEdits
import ModRemap.Proofs.Reader
import ModRemap.Remap.ClassFile

/-! A draft while names are replaced in it. Every step adds names behind all others, marks the draft
when it tells another index, and otherwise leaves the draft alone. -/

namespace ModRemap

/-- Some name that a class file can mention is renamed. -/
inductive Resolver.Alters (r : Resolver) : Prop
  | classConstant (s : String) : r.classConstant s ≠ s → Alters r
  | descriptor (s : String) : r.index.mapDescriptor s ≠ s → Alters r
  | signature (s : String) : r.signature s ≠ s → Alters r
  | reference (tag : UInt8) (owner name descriptor : String) :
      r.reference tag owner name descriptor ≠ name → Alters r
  | callSite (c : ClassFile) (bootstrap : UInt16) (name descriptor new : String) :
      r.callSite c bootstrap name descriptor = .ok (some new) → new ≠ name → Alters r
  | declaration (kind : MemberKind) (access : UInt16) (owner name descriptor : String) :
      r.declaration kind access owner name descriptor ≠ name → Alters r

/-- What any part of remapping does to the draft. -/
structure Draft.Step (r : Resolver) (d d' : Draft) : Prop where
  sound : d'.pool.Sound
  evolves : d.pool.Evolves d'.pool
  still : d'.changed = false → d' = d
  alters : d'.changed = true → d.changed = true ∨ r.Alters

namespace Draft.Step

variable {r : Resolver} {d d' d'' : Draft}

theorem refl (sound : d.pool.Sound) : d.Step r d := ⟨sound, .refl d.pool, fun _ => rfl, .inl⟩

theorem trans (h : d.Step r d') (h' : d'.Step r d'') : d.Step r d'' where
  sound := h'.sound
  evolves := h.evolves.trans h'.evolves
  still unchanged := by
    have second := h'.still unchanged
    exact second.trans (h.still (second ▸ unchanged))
  alters changed := (h'.alters changed).elim h.alters .inr

theorem changed_eq_false (h : d.Step r d') (unchanged : d'.changed = false) :
    d.changed = false :=
  h.still unchanged ▸ unchanged

end Draft.Step

/-- A step that only adds to the pool. -/
structure Draft.Adds (r : Resolver) (d d' : Draft) : Prop extends Draft.Step r d d' where
  keeps : d.pool.Keeps d'.pool

namespace Draft.Adds

variable {r : Resolver} {d d' d'' : Draft}

theorem refl (sound : d.pool.Sound) : d.Adds r d := ⟨.refl sound, fun _ _ slot => slot⟩

theorem trans (h : d.Adds r d') (h' : d'.Adds r d'') : d.Adds r d'' :=
  ⟨h.toStep.trans h'.toStep, h.keeps.trans h'.keeps⟩

end Draft.Adds

namespace Drafting

variable {α β : Type} {d d' : Draft}

theorem onPool_eq_ok {change : ConstantPool.Edit α} {a : α} :
    onPool change d = .ok (a, d') ↔
      change.run d.pool = (.ok a, d'.pool) ∧ d'.changed = d.changed := by
  unfold onPool
  rcases change.run d.pool with ⟨e | a', pool⟩
  · exact ⟨fun h => (nomatch h), fun h => (nomatch (Prod.mk.inj h.1).1)⟩
  · constructor
    · intro h
      obtain ⟨rfl, rfl⟩ := Prod.mk.inj (Except.ok.inj h)
      exact ⟨rfl, rfl⟩
    · rintro ⟨edited, same⟩
      obtain ⟨ha, rfl⟩ := Prod.mk.inj edited
      obtain rfl := Except.ok.inj ha
      cases d'
      rw [← same]

theorem text_eq_ok {index : UInt16} {s : String} :
    text index d = .ok (s, d') ↔ d.pool.text index = .ok s ∧ d' = d := by
  unfold text
  rw [except_bind_eq_ok]
  constructor
  · rintro ⟨t, read, h⟩
    obtain ⟨rfl, rfl⟩ := Prod.mk.inj (Except.ok.inj h)
    exact ⟨read, rfl⟩
  · rintro ⟨read, rfl⟩
    exact ⟨s, read, rfl⟩

theorem liftM_eq_ok {x : Except ClassError α} {a : α} :
    (liftM x : Drafting α) d = .ok (a, d') ↔ x = .ok a ∧ d' = d := by
  have step : (liftM x : Drafting α) d = (x >>= fun a => .ok (a, d)) := rfl
  rw [step, except_bind_eq_ok]
  constructor
  · rintro ⟨a', hx, h⟩
    obtain ⟨rfl, rfl⟩ := Prod.mk.inj (Except.ok.inj h)
    exact ⟨hx, rfl⟩
  · rintro ⟨hx, rfl⟩
    exact ⟨a, hx, rfl⟩

theorem reading_eq_ok {x : Reader α} {s t : Bytes} {a : α} :
    reading x s d = .ok ((a, t), d') ↔ x s = .ok (a, t) ∧ d' = d :=
  liftM_eq_ok

theorem pure_eq_ok {a a' : α} :
    (pure a : Drafting α) d = .ok (a', d') ↔ a' = a ∧ d' = d := by
  constructor
  · intro h
    obtain ⟨rfl, rfl⟩ := Prod.mk.inj (Except.ok.inj h)
    exact ⟨rfl, rfl⟩
  · rintro ⟨rfl, rfl⟩
    rfl

theorem mark_eq_ok {u : Unit} : mark d = .ok (u, d') ↔ d' = { d with changed := true } := by
  constructor
  · intro h
    exact (Prod.mk.inj (Except.ok.inj h)).2.symm
  · rintro rfl
    rfl

/-- An index that takes the place of another, which it equals unless the draft is marked. -/
structure Replaced (r : Resolver) (d : Draft) (index index' : UInt16) (d' : Draft) : Prop where
  step : d.Adds r d'
  still : d'.changed = false → index' = index

theorem replaced_self (r : Resolver) (sound : d.pool.Sound) (index : UInt16) :
    Replaced r d index index d :=
  ⟨.refl sound, fun _ => rfl⟩

/-- Interning, and the mark behind it. -/
theorem replaced_of_onPool {r : Resolver} (alters : r.Alters) {change : ConstantPool.Edit UInt16}
    {index index' : UInt16}
    (interns : ∀ i q, change.run d.pool = (.ok i, q) → q.Sound ∧ d.pool.Evolves q ∧ d.pool.Keeps q)
    (h : (do let index ← onPool change; mark; return index : Drafting UInt16) d =
      .ok (index', d')) :
    Replaced r d index index' d' ∧ change.run d.pool = (.ok index', d'.pool) := by
  obtain ⟨i, d₁, interned, h⟩ := stateT_bind_eq_ok.mp h
  obtain ⟨_, d₂, marked, h⟩ := stateT_bind_eq_ok.mp h
  obtain ⟨rfl, rfl⟩ := pure_eq_ok.mp h
  obtain rfl := mark_eq_ok.mp marked
  have edited := (onPool_eq_ok.mp interned).1
  obtain ⟨sound, evolves, keeps⟩ := interns _ _ edited
  exact ⟨⟨⟨⟨sound, evolves, nofun, fun _ => .inr alters⟩, keeps⟩, nofun⟩, edited⟩

theorem retext_spec {r : Resolver} {index index' : UInt16} {old new : String}
    (sound : d.pool.Sound) (here : d.pool.text index = .ok old) (alters : new ≠ old → r.Alters)
    (h : retext index old new d = .ok (index', d')) :
    Replaced r d index index' d' ∧ d'.pool.text index' = .ok new := by
  unfold retext at h
  split_ifs at h with same
  · obtain ⟨rfl, rfl⟩ := pure_eq_ok.mp h
    exact ⟨replaced_self r sound _, same ▸ here⟩
  · have spec (i : UInt16) (q : ConstantPool)
        (edited : (ConstantPool.internText new).run d.pool = (.ok i, q)) :=
      ConstantPool.interned_internText sound edited
    obtain ⟨replaced, edited⟩ := replaced_of_onPool (alters same)
      (fun i q edited => ⟨(spec i q edited).sound, (spec i q edited).evolves,
        (spec i q edited).keeps⟩) h
    exact ⟨replaced, (spec _ _ edited).text⟩

theorem retext_marks {index index' : UInt16} {old new : String} (other : new ≠ old)
    (h : retext index old new d = .ok (index', d')) : d'.changed = true := by
  rw [retext, if_neg other] at h
  obtain ⟨i, d₁, _, h⟩ := stateT_bind_eq_ok.mp h
  obtain ⟨_, d₂, marked, h⟩ := stateT_bind_eq_ok.mp h
  obtain ⟨_, rfl⟩ := pure_eq_ok.mp h
  rw [mark_eq_ok.mp marked]

theorem resymbol_spec {r : Resolver} {symbol symbol' : UInt16} {old new : String × String}
    (sound : d.pool.Sound) (here : d.pool.nameAndType symbol = .ok old)
    (alters : new ≠ old → r.Alters) (h : Resolver.resymbol symbol old new d = .ok (symbol', d')) :
    Replaced r d symbol symbol' d' ∧ d'.pool.nameAndType symbol' = .ok new := by
  unfold Resolver.resymbol at h
  split_ifs at h with same
  · obtain ⟨rfl, rfl⟩ := pure_eq_ok.mp h
    exact ⟨replaced_self r sound _, same ▸ here⟩
  · have spec (i : UInt16) (q : ConstantPool)
        (edited : (ConstantPool.internNameAndType new.1 new.2).run d.pool = (.ok i, q)) :=
      ConstantPool.internNameAndType_spec sound edited
    obtain ⟨replaced, edited⟩ := replaced_of_onPool (alters same)
      (fun i q edited => ⟨(spec i q edited).1, (spec i q edited).2.1, (spec i q edited).2.2.1⟩) h
    exact ⟨replaced, (spec _ _ edited).2.2.2⟩

/-- `Image p a a'` says that `a'` is, in the pool `p`, what `a` is to become. `f` makes it so, and
hands `a` back if it does not mark the draft. -/
def Faithful (r : Resolver) (f : α → Drafting α) (Image : ConstantPool → α → α → Prop) : Prop :=
  ∀ a d a' d', d.pool.Sound → f a d = .ok (a', d') →
    d.Adds r d' ∧ (d'.changed = false → a' = a) ∧ Image d'.pool a a'

/-- What is an image stays one while the pool evolves. -/
def Lasting (Image : ConstantPool → α → β → Prop) : Prop :=
  ∀ p q a b, p.Evolves q → Image p a b → Image q a b

theorem Lasting.forall₂ {Image : ConstantPool → α → β → Prop} (lasting : Lasting Image) :
    Lasting fun p => List.Forall₂ (Image p) :=
  fun p q _ _ evolves h => h.imp fun a b => lasting p q a b evolves

theorem Faithful.mapM {r : Resolver} {f : α → Drafting α} {Image : ConstantPool → α → α → Prop}
    (h : Faithful r f Image) (lasting : Lasting Image) :
    Faithful r (List.mapM f) fun p => List.Forall₂ (Image p) := by
  intro as
  induction as with
  | nil =>
    intro d as' d' sound done
    rw [List.mapM_nil] at done
    obtain ⟨rfl, rfl⟩ := pure_eq_ok.mp done
    exact ⟨.refl sound, fun _ => rfl, .nil⟩
  | cons a as ih =>
    intro d as' d' sound done
    rw [List.mapM_cons] at done
    obtain ⟨b, d₁, first, done⟩ := stateT_bind_eq_ok.mp done
    obtain ⟨bs, d₂, rest, done⟩ := stateT_bind_eq_ok.mp done
    obtain ⟨rfl, rfl⟩ := pure_eq_ok.mp done
    obtain ⟨step, still, image⟩ := h a d b d₁ sound first
    obtain ⟨steps, stills, images⟩ := ih d₁ bs d' step.sound rest
    refine ⟨step.trans steps, fun unchanged => ?_, .cons ?_ images⟩
    · rw [still (steps.changed_eq_false unchanged), stills unchanged]
    · exact lasting _ _ a b steps.evolves image

end Drafting

end ModRemap
