import Mathlib
import ModRemap.Proofs.CodeImage

/-! What becomes of a class. A constant keeps its slot and what it names is looked up in the pool
that the class came with; members and attributes follow when all constants are done. -/

namespace ModRemap.Resolver

open Drafting

variable {r : Resolver} {p q : ConstantPool} {d d' : Draft}

/-- What a constant of the class `c` becomes, whose new names stand in the pool `p`. -/
inductive ConstantImage (r : Resolver) (c : ClassFile) (p : ConstantPool) :
    Constant → Constant → Prop
  | classRef {name name' : UInt16} {old : String} (named : c.pool.text name = .ok old)
      (renamed : p.text name' = .ok (r.classConstant old)) :
      ConstantImage r c p (.classRef name) (.classRef name')
  | memberRef (tag : UInt8) {owner symbol symbol' : UInt16} {ownerName name descriptor : String}
      (owned : c.pool.className owner = .ok ownerName)
      (named : c.pool.nameAndType symbol = .ok (name, descriptor))
      (renamed : p.nameAndType symbol' =
        .ok (r.reference tag ownerName name descriptor, r.index.mapDescriptor descriptor)) :
      ConstantImage r c p (.memberRef tag owner symbol) (.memberRef tag owner symbol')
  | invokeDynamic {bootstrap symbol symbol' : UInt16} {name descriptor : String}
      {found : Option String} (named : c.pool.nameAndType symbol = .ok (name, descriptor))
      (resolved : r.callSite c bootstrap name descriptor = .ok found)
      (renamed : p.nameAndType symbol' =
        .ok (found.getD name, r.index.mapDescriptor descriptor)) :
      ConstantImage r c p (.dynamic Constant.invokeDynamicTag bootstrap symbol)
        (.dynamic Constant.invokeDynamicTag bootstrap symbol')
  | dynamic {tag : UInt8} {bootstrap symbol symbol' : UInt16} {name descriptor : String}
      (plain : tag ≠ Constant.invokeDynamicTag)
      (named : c.pool.nameAndType symbol = .ok (name, descriptor))
      (renamed : p.nameAndType symbol' = .ok (name, r.index.mapDescriptor descriptor)) :
      ConstantImage r c p (.dynamic tag bootstrap symbol) (.dynamic tag bootstrap symbol')
  | methodType {descriptor descriptor' : UInt16} {old : String}
      (named : c.pool.text descriptor = .ok old)
      (renamed : p.text descriptor' = .ok (r.index.mapDescriptor old)) :
      ConstantImage r c p (.methodType descriptor) (.methodType descriptor')
  | utf8 (bytes : Bytes) : ConstantImage r c p (.utf8 bytes) (.utf8 bytes)
  | integer (value : UInt32) : ConstantImage r c p (.integer value) (.integer value)
  | float (bits : UInt32) : ConstantImage r c p (.float bits) (.float bits)
  | long (value : UInt64) : ConstantImage r c p (.long value) (.long value)
  | double (bits : UInt64) : ConstantImage r c p (.double bits) (.double bits)
  | string (text : UInt16) : ConstantImage r c p (.string text) (.string text)
  | nameAndType (name descriptor : UInt16) :
      ConstantImage r c p (.nameAndType name descriptor) (.nameAndType name descriptor)
  | methodHandle (kind : UInt8) (reference : UInt16) :
      ConstantImage r c p (.methodHandle kind reference) (.methodHandle kind reference)
  | moduleRef (name : UInt16) : ConstantImage r c p (.moduleRef name) (.moduleRef name)
  | packageRef (name : UInt16) : ConstantImage r c p (.packageRef name) (.packageRef name)
  | unusable : ConstantImage r c p .unusable .unusable

theorem ConstantImage.repoints {c : ClassFile} {k k' : Constant} (h : ConstantImage r c p k k') :
    k.Repoints k' := by
  cases h <;> constructor

theorem ConstantImage.mono (evolves : p.Evolves q) {c : ClassFile} {k k' : Constant}
    (h : ConstantImage r c p k k') : ConstantImage r c q k k' := by
  cases h with
  | classRef named renamed => exact .classRef named (evolves.text renamed)
  | memberRef tag owned named renamed =>
    exact .memberRef tag owned named (evolves.nameAndType renamed)
  | invokeDynamic named resolved renamed =>
    exact .invokeDynamic named resolved (evolves.nameAndType renamed)
  | dynamic plain named renamed => exact .dynamic plain named (evolves.nameAndType renamed)
  | methodType named renamed => exact .methodType named (evolves.text renamed)
  | _ => constructor

/-- What becomes of an attribute of a class or a member. -/
inductive AttributeImage (r : Resolver) (p : ConstantPool) : Attribute → Attribute → Prop
  | signature {a a' : Attribute} {index index' : UInt16} {rest rest' : Bytes} {old : String}
      (kind : p.text a.name = .ok "Signature") (name : a'.name = a.name)
      (read : Reader.u2 a.info = .ok (index, rest)) (named : p.text index = .ok old)
      (read' : Reader.u2 a'.info = .ok (index', rest'))
      (renamed : p.text index' = .ok (r.signature old))
      (size : a'.info.length ≤ a.info.length) : AttributeImage r p a a'
  | code {a : Attribute} {info' : Bytes} (kind : p.text a.name = .ok "Code")
      (image : CodeImage r p a.info info') : AttributeImage r p a { a with info := info' }
  | other {a : Attribute} {kind : String} (named : p.text a.name = .ok kind)
      (plain : kind ≠ "Signature" ∧ kind ≠ "Code") : AttributeImage r p a a

theorem AttributeImage.length_le {a a' : Attribute} (h : AttributeImage r p a a') :
    a'.info.length ≤ a.info.length := by
  cases h with
  | signature _ _ _ _ _ _ size => exact size
  | code _ image => exact image.length_eq.le
  | other => exact le_rfl

theorem lasting_attributeImage : Lasting (AttributeImage r) := by
  intro p q a a' evolves h
  cases h with
  | signature kind name read named read' renamed size =>
    exact .signature (evolves.text kind) name read (evolves.text named) read' (evolves.text renamed)
      size
  | code kind image => exact .code (evolves.text kind) (image.mono evolves)
  | other named plain => exact .other (evolves.text named) plain

/-- What becomes of a field or method of the class `owner`. -/
structure MemberImage (r : Resolver) (kind : MemberKind) (owner : String) (p : ConstantPool)
    (m m' : Member) : Prop where
  access : m'.access = m.access
  symbol : ∃ name descriptor, p.text m.name = .ok name ∧ p.text m.descriptor = .ok descriptor ∧
    p.text m'.name = .ok (r.declaration kind m.access owner name descriptor) ∧
    p.text m'.descriptor = .ok (r.index.mapDescriptor descriptor)
  attributes : List.Forall₂ (AttributeImage r p) m.attributes m'.attributes

theorem lasting_memberImage {kind : MemberKind} {owner : String} :
    Lasting (MemberImage r kind owner) := by
  intro p q m m' evolves h
  obtain ⟨name, descriptor, hn, hd, hn', hd'⟩ := h.symbol
  exact ⟨h.access, ⟨name, descriptor, evolves.text hn, evolves.text hd, evolves.text hn',
    evolves.text hd'⟩, lasting_attributeImage.forall₂ p q _ _ evolves h.attributes⟩

/-! The remapping of each part makes its image. -/

theorem memberRef_alters {tag : UInt8} {owner name descriptor : String}
    (other : (r.reference tag owner name descriptor, r.index.mapDescriptor descriptor) ≠
      (name, descriptor)) : r.Alters := by
  by_cases same : r.reference tag owner name descriptor = name
  · exact .descriptor descriptor fun h => other (by rw [same, h])
  · exact .reference tag owner name descriptor same

/-- Only a call site can have a new name. -/
theorem dynamic_alters {c : ClassFile} {tag : UInt8} {bootstrap : UInt16} {name descriptor : String}
    {found : Option String}
    (site : if tag = Constant.invokeDynamicTag then
      r.callSite c bootstrap name descriptor = .ok found else found = none)
    (other : (found.getD name, r.index.mapDescriptor descriptor) ≠ (name, descriptor)) :
    r.Alters := by
  by_cases same : r.index.mapDescriptor descriptor = descriptor
  · cases found with
    | none => exact absurd (by rw [same]; rfl) other
    | some new =>
      split_ifs at site
      · exact .callSite c bootstrap name descriptor new site fun h => other (by rw [same, h]; rfl)
  · exact .descriptor descriptor same

theorem remapConstant_spec {c : ClassFile} {k k' : Constant} (sound : d.pool.Sound)
    (since : c.pool.Evolves d.pool) (h : r.remapConstant c k d = .ok (k', d')) :
    d.Adds r d' ∧ (d'.changed = false → k' = k) ∧ ConstantImage r c d'.pool k k' := by
  cases k with
  | classRef name =>
    obtain ⟨old, d₁, looked, h⟩ := stateT_bind_eq_ok.mp h
    obtain ⟨name', d₂, replaced, h⟩ := stateT_bind_eq_ok.mp h
    obtain ⟨rfl, rfl⟩ := pure_eq_ok.mp h
    obtain ⟨named, rfl⟩ := liftM_eq_ok.mp looked
    obtain ⟨new, renamed⟩ := retext_spec sound (since.text named) (.classConstant old) replaced
    refine ⟨new.step, fun unchanged => ?_, .classRef named renamed⟩
    rw [new.still unchanged]
  | memberRef tag owner symbol =>
    obtain ⟨ownerName, d₁, looked, h⟩ := stateT_bind_eq_ok.mp h
    obtain ⟨⟨name, descriptor⟩, d₂, looked', h⟩ := stateT_bind_eq_ok.mp h
    obtain ⟨symbol', d₃, replaced, h⟩ := stateT_bind_eq_ok.mp h
    obtain ⟨rfl, rfl⟩ := pure_eq_ok.mp h
    obtain ⟨owned, rfl⟩ := liftM_eq_ok.mp looked
    obtain ⟨named, rfl⟩ := liftM_eq_ok.mp looked'
    obtain ⟨new, renamed⟩ :=
      resymbol_spec sound (since.nameAndType named) memberRef_alters replaced
    refine ⟨new.step, fun unchanged => ?_, .memberRef tag owned named renamed⟩
    rw [new.still unchanged]
  | dynamic tag bootstrap symbol =>
    obtain ⟨⟨name, descriptor⟩, d₁, looked, h⟩ := stateT_bind_eq_ok.mp h
    obtain ⟨found, d₂, resolved, h⟩ := stateT_ite_bind_eq_ok.mp h
    obtain ⟨symbol', d₃, replaced, h⟩ := stateT_bind_eq_ok.mp h
    obtain ⟨rfl, rfl⟩ := pure_eq_ok.mp h
    obtain ⟨named, rfl⟩ := liftM_eq_ok.mp looked
    have site : d₂ = d₁ ∧ if tag = Constant.invokeDynamicTag then
        r.callSite c bootstrap name descriptor = .ok found else found = none := by
      split_ifs at resolved ⊢
      · exact (liftM_eq_ok.mp resolved).symm
      · exact (pure_eq_ok.mp resolved).symm
    obtain ⟨rfl, site⟩ := site
    obtain ⟨new, renamed⟩ :=
      resymbol_spec sound (since.nameAndType named) (dynamic_alters site) replaced
    refine ⟨new.step, fun unchanged => by rw [new.still unchanged], ?_⟩
    split_ifs at site with invoked
    · subst invoked
      exact .invokeDynamic named site renamed
    · subst site
      exact .dynamic invoked named renamed
  | methodType descriptor =>
    obtain ⟨old, d₁, looked, h⟩ := stateT_bind_eq_ok.mp h
    obtain ⟨descriptor', d₂, replaced, h⟩ := stateT_bind_eq_ok.mp h
    obtain ⟨rfl, rfl⟩ := pure_eq_ok.mp h
    obtain ⟨named, rfl⟩ := liftM_eq_ok.mp looked
    obtain ⟨new, renamed⟩ := retext_spec sound (since.text named) (.descriptor old) replaced
    refine ⟨new.step, fun unchanged => ?_, .methodType named renamed⟩
    rw [new.still unchanged]
  | _ =>
    obtain ⟨rfl, rfl⟩ := pure_eq_ok.mp h
    exact ⟨.refl sound, fun _ => rfl, by constructor⟩

theorem replaceSlot_spec {slot : ℕ} {k k' : Constant} {u : Unit} (sound : d.pool.Sound)
    (old : d.pool.slots[slot]? = some k) (kind : k.Repoints k') (same : d.changed = false → k' = k)
    (h : (if k' ≠ k then onPool (ConstantPool.replace (UInt16.ofNat slot) k') else pure () :
      Drafting Unit) d = .ok (u, d')) :
    d.Step r d' ∧ d'.pool.slots[slot]? = some k' ∧
      ∀ j, j ≠ slot → d'.pool.slots[j]? = d.pool.slots[j]? := by
  have index : (UInt16.ofNat slot).toNat = slot :=
    UInt16.toNat_ofNat_of_lt' (lt_of_lt_of_le (Array.getElem?_eq_some_iff.mp old).1 sound.size)
  split_ifs at h with other
  · obtain ⟨edited, mark⟩ := onPool_eq_ok.mp h
    obtain ⟨sound', evolves, here, there⟩ :=
      ConstantPool.replace_spec sound (by rwa [index]) kind edited
    rw [index] at here there
    refine ⟨⟨sound', evolves, fun unchanged => ?_, fun changed => .inl (mark ▸ changed)⟩, here, there⟩
    exact absurd (same (mark ▸ unchanged)) other
  · obtain ⟨_, rfl⟩ := pure_eq_ok.mp h
    exact ⟨.refl sound, not_not.mp other ▸ old, fun _ _ => rfl⟩

/-- Every slot from `slot` on gets the image of what it held, and those before it are left alone. -/
theorem remapSlots_spec {c : ClassFile} {slot : ℕ} {ks : List Constant} {u : Unit}
    (sound : d.pool.Sound) (since : c.pool.Evolves d.pool)
    (old : ∀ (j : ℕ) (k : Constant), ks[j]? = some k → d.pool.slots[slot + j]? = some k)
    (h : r.remapSlots c slot ks d = .ok (u, d')) :
    d.Step r d' ∧
      (∀ j < slot, ∀ k, d.pool.slots[j]? = some k → d'.pool.slots[j]? = some k) ∧
      ∀ (j : ℕ) (k : Constant), ks[j]? = some k →
        ∃ k', d'.pool.slots[slot + j]? = some k' ∧ ConstantImage r c d'.pool k k' := by
  induction ks generalizing slot d with
  | nil =>
    obtain ⟨_, rfl⟩ := pure_eq_ok.mp h
    exact ⟨.refl sound, fun _ _ _ slot => slot, nofun⟩
  | cons k ks ih =>
    obtain ⟨k', d₁, first, h⟩ := stateT_bind_eq_ok.mp h
    obtain ⟨_, d₂, replaced, h⟩ := (stateT_ite_bind_eq_ok (y := pure ())).mp h
    obtain ⟨step, still, image⟩ := remapConstant_spec sound since first
    have held : d.pool.slots[slot]? = some k := old 0 k rfl
    obtain ⟨step', here, there⟩ :=
      replaceSlot_spec (r := r) step.sound (step.keeps _ _ held) image.repoints still replaced
    -- The slots still to come hold what they held, since only `slot` has been replaced.
    have later (j : ℕ) (l : Constant) (hl : ks[j]? = some l) :
        d₂.pool.slots[slot + 1 + j]? = some l := by
      rw [there _ (by omega)]
      exact step.keeps _ _ (by simpa only [Nat.add_right_comm, Nat.add_assoc] using old (j + 1) l hl)
    obtain ⟨steps, before, images⟩ :=
      ih step'.sound ((since.trans step.evolves).trans step'.evolves) later h
    refine ⟨(step.toStep.trans step').trans steps, fun j hj l hl => ?_, fun j l hl => ?_⟩
    · apply before j (by omega)
      rw [there j (by omega)]
      exact step.keeps _ _ hl
    · cases j with
      | zero =>
        obtain rfl := Option.some.inj hl
        exact ⟨k', before slot (by omega) k' here,
          image.mono (step'.evolves.trans steps.evolves)⟩
      | succ j =>
        obtain ⟨l', hl', imaged⟩ := images j l hl
        exact ⟨l', by rwa [Nat.add_right_comm, Nat.add_assoc] at hl', imaged⟩

theorem remapAttribute_faithful : Faithful r r.remapAttribute (AttributeImage r) := by
  intro a d a' d' sound h
  obtain ⟨kind, d₁, looked, kinds⟩ := stateT_bind_eq_ok.mp h
  obtain ⟨named, rfl⟩ := text_eq_ok.mp looked
  clear h
  split_ifs at kinds with signature code
  · subst signature
    obtain ⟨⟨index, rest⟩, d₂, taken, kinds⟩ := stateT_bind_eq_ok.mp kinds
    obtain ⟨old, d₃, looked', renames⟩ := stateT_bind_eq_ok.mp kinds
    obtain ⟨read, rfl⟩ := reading_eq_ok.mp taken
    obtain ⟨text, rfl⟩ := text_eq_ok.mp looked'
    clear kinds
    split_ifs at renames with same
    · obtain ⟨rfl, rfl⟩ := pure_eq_ok.mp renames
      exact ⟨.refl sound, fun _ => rfl, .signature named rfl read text read (same.symm ▸ text) le_rfl⟩
    · obtain ⟨index', d₄, replaced, done⟩ := stateT_bind_eq_ok.mp renames
      obtain ⟨rfl, rfl⟩ := pure_eq_ok.mp done
      obtain ⟨new, renamed⟩ := retext_spec sound text (.signature old) replaced
      -- The bytes behind the index are dropped, but this draft is marked.
      have marked := retext_marks same replaced
      refine ⟨new.step, fun unchanged => (nomatch marked.symm.trans unchanged), ?_⟩
      refine .signature (new.step.evolves.text named) rfl read (new.step.evolves.text text)
        (Reader.reads_u2 index' []) renamed ?_
      rw [Reader.u2_eq_ok read, List.length_append]
      exact Nat.le_add_right 2 _
  · subst code
    obtain ⟨info', d₂, body, done⟩ := stateT_bind_eq_ok.mp kinds
    obtain ⟨rfl, rfl⟩ := pure_eq_ok.mp done
    obtain ⟨step, still, image⟩ := remapCode_faithful a.info _ info' _ sound body
    refine ⟨step, fun unchanged => ?_, .code (step.evolves.text named) image⟩
    rw [still unchanged]
  · obtain ⟨rfl, rfl⟩ := pure_eq_ok.mp kinds
    exact ⟨.refl sound, fun _ => rfl, .other named ⟨signature, code⟩⟩

theorem remapMember_faithful (kind : MemberKind) (owner : String) :
    Faithful r (r.remapMember kind owner) (MemberImage r kind owner) := by
  intro m d m' d' sound h
  obtain ⟨oldName, d₁, looked, h⟩ := stateT_bind_eq_ok.mp h
  obtain ⟨oldDescriptor, d₂, looked', h⟩ := stateT_bind_eq_ok.mp h
  obtain ⟨name, d₃, replaced, h⟩ := stateT_bind_eq_ok.mp h
  obtain ⟨descriptor, d₄, replaced', h⟩ := stateT_bind_eq_ok.mp h
  obtain ⟨attributes, d₅, others, h⟩ := stateT_bind_eq_ok.mp h
  obtain ⟨rfl, rfl⟩ := pure_eq_ok.mp h
  obtain ⟨named, rfl⟩ := text_eq_ok.mp looked
  obtain ⟨described, rfl⟩ := text_eq_ok.mp looked'
  obtain ⟨first, renamed⟩ := retext_spec sound named (.declaration kind _ _ _ _) replaced
  obtain ⟨second, redescribed⟩ := retext_spec first.step.sound (first.step.evolves.text described)
    (.descriptor _) replaced'
  obtain ⟨steps, still, images⟩ := remapAttribute_faithful.mapM lasting_attributeImage _ _ _ _
    second.step.sound others
  have whole := (first.step.trans second.step).trans steps
  refine ⟨whole, fun unchanged => ?_, rfl, ⟨oldName, oldDescriptor, whole.evolves.text named,
    whole.evolves.text described, (second.step.trans steps).evolves.text renamed,
    steps.evolves.text redescribed⟩, images⟩
  rw [first.still ((second.step.trans steps).changed_eq_false unchanged),
    second.still (steps.changed_eq_false unchanged), still unchanged]

/-- What becomes of a class, whose old name is `owner`. -/
structure ClassImage (r : Resolver) (owner : String) (c c' : ClassFile) : Prop where
  header : c'.minor = c.minor ∧ c'.major = c.major ∧ c'.access = c.access ∧
    c'.thisClass = c.thisClass ∧ c'.superclass = c.superclass ∧ c'.interfaces = c.interfaces
  texts : ∀ i s, c.pool.text i = .ok s → c'.pool.text i = .ok s
  constants : ∀ (i : ℕ) (k : Constant), c.pool.slots[i]? = some k →
    ∃ k', c'.pool.slots[i]? = some k' ∧ ConstantImage r c c'.pool k k'
  added : ∀ (i : ℕ) (k : Constant), c.pool.size ≤ i → c'.pool.slots[i]? = some k → k.Plain
  fields : List.Forall₂ (MemberImage r .field owner c'.pool) c.fields c'.fields
  methods : List.Forall₂ (MemberImage r .method owner c'.pool) c.methods c'.methods
  attributes : List.Forall₂ (AttributeImage r c'.pool) c.attributes c'.attributes

theorem remapTables_spec {c c' : ClassFile} {owner : String} (fits : c.pool.Storable)
    (sound : c.pool.Sound) (h : r.remapTables c owner ⟨c.pool, false⟩ = .ok (c', d')) :
    Draft.Step r ⟨c.pool, false⟩ d' ∧ (d'.changed = false → c' = c) ∧
      ClassImage r owner c { c' with pool := d'.pool } := by
  obtain ⟨_, d₁, slots, h⟩ := stateT_bind_eq_ok.mp h
  obtain ⟨fields, d₂, first, h⟩ := stateT_bind_eq_ok.mp h
  obtain ⟨methods, d₃, second, h⟩ := stateT_bind_eq_ok.mp h
  obtain ⟨attributes, d₄, third, h⟩ := stateT_bind_eq_ok.mp h
  obtain ⟨rfl, rfl⟩ := pure_eq_ok.mp h
  obtain ⟨ks, front, _⟩ := fits.laid
  have tail : c.pool.slots.toList.tail = ks := by rw [front, List.tail_cons]
  have held (j : ℕ) : c.pool.slots[1 + j]? = ks[j]? := by
    rw [← Array.getElem?_toList, front, Nat.add_comm, List.getElem?_cons_succ]
  rw [tail] at slots
  obtain ⟨step, _, images⟩ := remapSlots_spec (d := ⟨c.pool, false⟩) sound (.refl c.pool)
    (fun j k hk => (held j).trans hk) slots
  obtain ⟨step₁, still₁, images₁⟩ := (remapMember_faithful .field owner).mapM lasting_memberImage
    _ _ _ _ step.sound first
  obtain ⟨step₂, still₂, images₂⟩ := (remapMember_faithful .method owner).mapM lasting_memberImage
    _ _ _ _ step₁.sound second
  obtain ⟨step₃, still₃, images₃⟩ := remapAttribute_faithful.mapM lasting_attributeImage
    _ _ _ _ step₂.sound third
  have rest := (step₁.trans step₂).trans step₃
  have whole := step.trans rest.toStep
  refine ⟨whole, fun unchanged => ?_, ⟨⟨rfl, rfl, rfl, rfl, rfl, rfl⟩,
    fun _ _ => whole.evolves.text, fun i k hk => ?_, whole.evolves.added,
    lasting_memberImage.forall₂ _ _ _ _ (step₂.trans step₃).evolves images₁,
    lasting_memberImage.forall₂ _ _ _ _ step₃.evolves images₂, images₃⟩⟩
  · rw [still₁ ((step₂.trans step₃).changed_eq_false unchanged),
      still₂ (step₃.changed_eq_false unchanged), still₃ unchanged]
  · rcases i with _ | i
    · have first : c.pool.slots[0]? = some .unusable := by
        rw [← Array.getElem?_toList, front, List.getElem?_cons_zero]
      obtain rfl := Option.some.inj (first.symm.trans hk)
      obtain ⟨k', hk', repoints⟩ := whole.evolves.kept 0 _ hk
      cases repoints
      exact ⟨_, hk', .unusable⟩
    · rw [Nat.add_comm, held] at hk
      obtain ⟨k', hk', image⟩ := images i k hk
      exact ⟨k', rest.keeps _ _ (by rwa [Nat.add_comm]), image.mono rest.evolves⟩

end ModRemap.Resolver
