import Mathlib
import ModRemap.Proofs.ClassBuilding
import ModRemap.Proofs.PoolEdits

/-! A pool under any sequence of operations. What pushing tells is always so. What interning tells of
a text is so until the slot of the text is given to something else, since only interning looks after
the texts that are known. -/

namespace ModRemap

/-- A text that reads as `s`; more than one may. -/
def Constant.Holds (s : String) (k : Constant) : Prop :=
  ∃ b, k = .utf8 b ∧ ModifiedUtf8.decode? b = some s

namespace ConstantPool

inductive Operation where
  | push (k : Constant)
  | replace (i : UInt16) (k : Constant)
  | internText (s : String)
  | internClass (name : String)
  | internNameAndType (name descriptor : String)
deriving DecidableEq

namespace Operation

/-- The pool afterwards, also where the operation fails. -/
def run : Operation → ConstantPool → ConstantPool
  | push k, p => ((ConstantPool.push k).run p).2
  | replace i k, p => ((ConstantPool.replace i k).run p).2
  | internText s, p => ((ConstantPool.internText s).run p).2
  | internClass name, p => ((ConstantPool.internClass name).run p).2
  | internNameAndType name descriptor, p =>
    ((ConstantPool.internNameAndType name descriptor).run p).2

/-- The texts that are interned, in this order. -/
def texts : Operation → List String
  | push _ => []
  | replace _ _ => []
  | internText s => [s]
  | internClass name => [name]
  | internNameAndType name descriptor => [name, descriptor]

end Operation

def after (p : ConstantPool) (ops : List Operation) : ConstantPool :=
  ops.foldl (fun p op => op.run p) p

theorem after_append (p : ConstantPool) (ops ops' : List Operation) :
    p.after (ops ++ ops') = (p.after ops).after ops' :=
  List.foldl_append

/-- A new pool, or one that was read. -/
def Initial (p : ConstantPool) : Prop := p = empty ∨ ∃ s t, read s = .ok (p, t)

/-- No slot holds a text of these bytes. -/
def Lacks (p : ConstantPool) (b : Bytes) : Prop := ∀ i : ℕ, p.slots[i]? ≠ some (.utf8 b)

/-- Every text that stands in a slot is known. -/
def Lists (p : ConstantPool) : Prop :=
  ∀ (b : Bytes) (i : ℕ), p.slots[i]? = some (.utf8 b) → ∃ j, p.texts.get? b = some j

/-- The texts that are known are those that stand in some slot. -/
structure Listed (p : ConstantPool) : Prop extends p.Sound where
  lists : p.Lists

/-- What operations other than `replace` do, when they intern the given texts: nothing moves, and
what is learned about texts is so. -/
structure Extends (names : List String) (p q : ConstantPool) : Prop where
  keeps : p.Keeps q
  bound : q.size ≤ max p.size maxSize
  known : ∀ b i, p.texts.get? b = some i → q.texts.get? b = some i
  learned : ∀ b i, q.texts.get? b = some i → p.texts.get? b = some i ∨
    p.size ≤ i.toNat ∧ q.slots[i.toNat]? = some (.utf8 b) ∧ ∃ s ∈ names, ModifiedUtf8.encode s = b
  interned : ∀ s ∈ names, (∃ i, q.texts.get? (ModifiedUtf8.encode s) = some i) ∨ maxSize ≤ q.size

theorem Keeps.size_le {p q : ConstantPool} (h : p.Keeps q) : p.size ≤ q.size := by
  by_contra short
  have last : q.slots.size < p.slots.size := not_le.mp short
  have slot := h q.slots.size _ (Array.getElem?_eq_getElem last)
  rw [Array.getElem?_eq_none le_rfl] at slot
  exact nomatch slot

theorem keeps_append (p : ConstantPool) (k : Constant) : p.Keeps (p.append k) :=
  fun _ _ slot => (getElem?_append_of_lt p k (Array.getElem?_eq_some_iff.mp slot).1).trans slot

namespace Extends

variable {names names' : List String} {p q q' : ConstantPool}

theorem refl (p : ConstantPool) : p.Extends [] p where
  keeps _ _ slot := slot
  bound := le_max_left _ _
  known _ _ found := found
  learned _ _ found := .inl found
  interned := nofun

theorem trans (h : p.Extends names q) (h' : q.Extends names' q') :
    p.Extends (names ++ names') q' where
  keeps := h.keeps.trans h'.keeps
  bound := h'.bound.trans (max_le h.bound (le_max_right _ _))
  known b i found := h'.known b i (h.known b i found)
  learned b i found := by
    rcases h'.learned b i found with old | ⟨late, slot, s, member, same⟩
    · rcases h.learned b i old with old | ⟨new, slot, s, member, same⟩
      · exact .inl old
      · exact .inr ⟨new, h'.keeps _ _ slot, s, List.mem_append_left _ member, same⟩
    · exact .inr ⟨h.keeps.size_le.trans late, slot, s, List.mem_append_right _ member, same⟩
  interned s member := by
    rcases List.mem_append.mp member with member | member
    · refine (h.interned s member).imp (fun ⟨i, found⟩ => ⟨i, h'.known _ i found⟩) fun full => ?_
      exact full.trans h'.keeps.size_le
    · exact h'.interned s member

theorem size_le (h : p.Extends names q) (room : p.size ≤ 0x10000) : q.size ≤ 0x10000 :=
  h.bound.trans (max_le room (by decide))

/-- Where no room is left, nothing can be missed. -/
theorem of_full (full : maxSize ≤ p.size) (names : List String) : p.Extends names p :=
  { refl p with
    learned := fun _ _ found => .inl found
    interned := fun _ _ => .inr full }

end Extends

variable {α : Type} {p q : ConstantPool} {i : UInt16}

theorem extends_append {k : Constant} (room : p.size + k.slots ≤ maxSize) :
    p.Extends [] (p.append k) where
  keeps := keeps_append p k
  bound := le_max_of_le_right (size_append p k ▸ room)
  known _ _ found := found
  learned _ _ found := .inl found
  interned := nofun

theorem run_push (k : Constant) (p : ConstantPool) :
    (push k).run p = if maxSize < p.size + k.slots then (.error .poolOverflow, p)
      else (.ok p.next, p.append k) :=
  rfl

theorem extends_push (k : Constant) (p : ConstantPool) : p.Extends [] ((push k).run p).2 := by
  rw [run_push]
  split_ifs with full
  · exact .refl p
  · exact extends_append (not_lt.mp full)

theorem run_intern (k : Constant) (p : ConstantPool) :
    (intern k).run p = match p.slots.findIdx? (· = k) with
      | some j => (.ok (UInt16.ofNat j), p)
      | none => (push k).run p := by
  show (match p.slots.findIdx? (· = k) with
    | some j => (return UInt16.ofNat j : Edit UInt16)
    | none => push k).run p = _
  cases p.slots.findIdx? (· = k) <;> rfl

theorem extends_intern (k : Constant) (p : ConstantPool) : p.Extends [] ((intern k).run p).2 := by
  rw [run_intern]
  cases p.slots.findIdx? (· = k) with
  | some j => exact .refl p
  | none => exact extends_push k p

theorem run_internText (s : String) (p : ConstantPool) :
    (internText s).run p = match p.texts.get? (ModifiedUtf8.encode s) with
      | some i => (.ok i, p)
      | none => if maxSize < p.size + 1 then (.error .poolOverflow, p) else
        (.ok p.next, { p.append (.utf8 (ModifiedUtf8.encode s)) with
          texts := p.texts.insert (ModifiedUtf8.encode s) p.next }) := by
  unfold internText
  dsimp only
  rw [edit_run_bind]
  show (match p.texts.get? (ModifiedUtf8.encode s) with
    | some i => (return i : Edit UInt16)
    | none => _).run p = _
  cases p.texts.get? (ModifiedUtf8.encode s) with
  | some i => rfl
  | none =>
    dsimp only
    have width : (Constant.utf8 (ModifiedUtf8.encode s)).slots = 1 := rfl
    rw [edit_run_bind, run_push, width]
    split_ifs <;> rfl

/-- A text that is put behind all others, and known there. -/
theorem extends_note {s : String} (new : p.texts.get? (ModifiedUtf8.encode s) = none)
    (room : p.size + 1 ≤ maxSize) :
    p.Extends [s] { p.append (.utf8 (ModifiedUtf8.encode s)) with
      texts := p.texts.insert (ModifiedUtf8.encode s) p.next } where
  keeps := keeps_append p _
  bound := (extends_append (k := .utf8 _) room).bound
  known b i found := by
    have other : b ≠ ModifiedUtf8.encode s := by
      rintro rfl
      exact nomatch new.symm.trans found
    show (p.texts.insert _ _).get? b = some i
    rw [Dict.get?_insert, if_neg other, found]
  learned b i found := by
    have index : p.next.toNat = p.size := toNat_next (lt_of_lt_of_le room (by decide))
    replace found : (p.texts.insert (ModifiedUtf8.encode s) p.next).get? b = some i := found
    rw [Dict.get?_insert] at found
    split_ifs at found with same
    · obtain rfl := Option.some.inj found
      rw [index]
      exact .inr ⟨le_rfl, same ▸ getElem?_append_size p _, s, List.mem_cons_self, same.symm⟩
    · exact .inl found
  interned t member := by
    refine .inl ⟨p.next, ?_⟩
    show (p.texts.insert _ _).get? _ = _
    rw [List.mem_singleton.mp member, Dict.get?_insert, if_pos rfl]

/-- What is done with the index of a text adds to what is done for the text. -/
theorem extends_internText_bind {s : String} {names : List String} {f : UInt16 → Edit α}
    (hf : ∀ (i : UInt16) (p : ConstantPool), p.Extends names ((f i).run p).2) (p : ConstantPool) :
    p.Extends (s :: names) ((internText s >>= f).run p).2 := by
  rw [edit_run_bind, run_internText]
  cases found : p.texts.get? (ModifiedUtf8.encode s) with
  | some i =>
    have there : p.Extends [s] p :=
      { Extends.refl p with
        learned := fun _ _ found => .inl found
        interned := fun t member => .inl ⟨i, List.mem_singleton.mp member ▸ found⟩ }
    exact there.trans (hf i p)
  | none =>
    dsimp only
    split_ifs with full
    · exact .of_full (Nat.le_of_lt_succ full) _
    · exact (extends_note found (not_lt.mp full)).trans (hf _ _)

theorem extends_internText (s : String) (p : ConstantPool) :
    p.Extends [s] ((internText s).run p).2 := by
  have whole := extends_internText_bind (s := s) (f := fun i => (pure i : Edit UInt16))
    (fun _ p => .refl p) p
  rwa [bind_pure] at whole

theorem extends_of_internText {s : String} (done : (internText s).run p = (.ok i, q)) :
    p.Extends [s] q := by
  have extended := extends_internText s p
  rwa [done] at extended

theorem extends_of_intern {k : Constant} (done : (intern k).run p = (.ok i, q)) :
    p.Extends [] q := by
  have extended := extends_intern k p
  rwa [done] at extended

theorem extends_internClass (name : String) (p : ConstantPool) :
    p.Extends [name] ((internClass name).run p).2 :=
  extends_internText_bind (fun n => extends_intern (.classRef n)) p

theorem extends_internNameAndType (name descriptor : String) (p : ConstantPool) :
    p.Extends [name, descriptor] ((internNameAndType name descriptor).run p).2 :=
  extends_internText_bind (fun n => extends_internText_bind fun d =>
    extends_intern (.nameAndType n d)) p

/-! Runs of operations. -/

theorem run_replace (i : UInt16) (k : Constant) (p : ConstantPool) :
    (Operation.replace i k).run p = { p with slots := p.slots.setIfInBounds i.toNat k } := by
  show (if i.toNat < p.size then ((.ok () : Except ClassError Unit), _) else (_, p)).2 = _
  split_ifs with inside
  · rfl
  · have same : p.slots.setIfInBounds i.toNat k = p.slots :=
      Array.setIfInBounds_eq_of_size_le (not_lt.mp inside)
    rw [same]

/-- Only `replace` moves away from what was there. -/
theorem extends_run {op : Operation} (other : ∀ i k, op ≠ .replace i k) (p : ConstantPool) :
    p.Extends op.texts (op.run p) := by
  cases op with
  | push k => exact extends_push k p
  | replace i k => exact absurd rfl (other i k)
  | internText s => exact extends_internText s p
  | internClass name => exact extends_internClass name p
  | internNameAndType name descriptor => exact extends_internNameAndType name descriptor p

theorem replaces_or_extends (op : Operation) (p : ConstantPool) :
    (∃ i k, op = .replace i k) ∨
      (∀ i k, op ≠ .replace i k) ∧ p.Extends op.texts (op.run p) := by
  by_cases replaces : ∃ i k, op = .replace i k
  · exact .inl replaces
  · have other (i k) : op ≠ .replace i k := fun same => replaces ⟨i, k, same⟩
    exact .inr ⟨other, extends_run other p⟩

theorem size_run (op : Operation) (p : ConstantPool) :
    p.size ≤ (op.run p).size ∧ (op.run p).size ≤ max p.size maxSize := by
  rcases replaces_or_extends op p with ⟨i, k, rfl⟩ | ⟨-, extended⟩
  · rw [run_replace, ConstantPool.size, ConstantPool.size, Array.size_setIfInBounds]
    exact ⟨le_rfl, le_max_left _ _⟩
  · exact ⟨extended.keeps.size_le, extended.bound⟩

theorem after_concat (p : ConstantPool) (ops : List Operation) (op : Operation) :
    p.after (ops ++ [op]) = op.run (p.after ops) :=
  after_append p ops [op]

theorem size_after (p : ConstantPool) (ops : List Operation) :
    p.size ≤ (p.after ops).size ∧ (p.after ops).size ≤ max p.size maxSize := by
  induction ops using List.reverseRecOn with
  | nil => exact ⟨le_rfl, le_max_left _ _⟩
  | append_singleton ops op ih =>
    obtain ⟨grown, bound⟩ := size_run op (p.after ops)
    rw [after_concat]
    exact ⟨ih.1.trans grown, bound.trans (max_le ih.2 (le_max_right _ _))⟩

/-- The last operation that replaces the constant in the slot `i`, and finds the slot there, puts
`k` into it. -/
def Replaced (p : ConstantPool) (ops : List Operation) (i : UInt16) (k : Constant) : Prop :=
  ∃ before later, ops = before ++ .replace i k :: later ∧ i.toNat < (p.after before).size ∧
    ∀ k', .replace i k' ∉ later

/-- Another constant than a text for `s` has been put into the slot `i`. -/
def Overwritten (p : ConstantPool) (ops : List Operation) (i : UInt16) (s : String) : Prop :=
  ∃ k, p.Replaced ops i k ∧ ¬k.Holds s

theorem slot_run {op : Operation} {i : UInt16} (other : ∀ k', op ≠ .replace i k') {k : Constant}
    (slot : p.slots[i.toNat]? = some k) : (op.run p).slots[i.toNat]? = some k := by
  rcases replaces_or_extends op p with ⟨j, k', rfl⟩ | ⟨-, extended⟩
  · have apart : j.toNat ≠ i.toNat := fun same => other k' (by rw [UInt16.toNat_inj.mp same])
    rw [run_replace]
    exact (Array.getElem?_setIfInBounds_ne apart).trans slot
  · exact extended.keeps _ _ slot

theorem Replaced.concat {ops : List Operation} {k : Constant} (h : p.Replaced ops i k)
    {op : Operation} (other : ∀ k', op ≠ .replace i k') : p.Replaced (ops ++ [op]) i k := by
  obtain ⟨before, later, rfl, inside, last⟩ := h
  refine ⟨before, later ++ [op], by rw [List.append_assoc, List.cons_append], inside, ?_⟩
  intro k' member
  rcases List.mem_append.mp member with member | member
  · exact last k' member
  · exact other k' (List.mem_singleton.mp member).symm

theorem Replaced.mem {ops : List Operation} {k : Constant} (h : p.Replaced ops i k) :
    .replace i k ∈ ops := by
  obtain ⟨before, later, rfl, -⟩ := h
  exact List.mem_append_right before List.mem_cons_self

theorem Replaced.slot {ops : List Operation} {k : Constant} (h : p.Replaced ops i k) :
    (p.after ops).slots[i.toNat]? = some k := by
  obtain ⟨before, later, rfl, inside, last⟩ := h
  induction later using List.reverseRecOn with
  | nil =>
    rw [after_concat, run_replace]
    exact Array.getElem?_setIfInBounds_self_of_lt inside
  | append_singleton later op ih =>
    rw [← List.cons_append, ← List.append_assoc, after_concat]
    refine slot_run (fun k' same => last k' ?_) (ih fun k' member =>
      last k' (List.mem_append_left _ member))
    exact List.mem_append_right _ (List.mem_singleton.mpr same.symm)

/-- A text stays where it became known, until its slot is given to something else. -/
theorem slot_of_known (start : p.Sound) {ops : List Operation} {b : Bytes} {i : UInt16}
    (found : (p.after ops).texts.get? b = some i) :
    (p.after ops).slots[i.toNat]? = some (.utf8 b) ∨ ∃ k, p.Replaced ops i k := by
  -- From the last operation back, as `Replaced` speaks of the last one that hits a slot.
  induction ops using List.reverseRecOn with
  | nil => exact .inl (start.texts b i found)
  | append_singleton ops op ih =>
    rw [after_concat] at found ⊢
    rcases replaces_or_extends op (p.after ops) with ⟨j, k, rfl⟩ | ⟨unreplaced, extended⟩
    · rw [run_replace] at found
      have inside : i.toNat < (p.after ops).size := by
        rcases ih found with slot | ⟨l, replaced⟩
        · exact (Array.getElem?_eq_some_iff.mp slot).1
        · exact (Array.getElem?_eq_some_iff.mp replaced.slot).1
      by_cases here : j = i
      · subst here
        exact .inr ⟨k, ops, [], rfl, inside, fun _ => List.not_mem_nil⟩
      · have other (k' : Constant) : Operation.replace j k ≠ .replace i k' :=
          fun same => here (Operation.replace.inj same).1
        exact (ih found).imp (slot_run other) fun ⟨l, replaced⟩ => ⟨l, replaced.concat other⟩
    · rcases extended.learned b i found with old | ⟨_, slot, _⟩
      · exact (ih old).imp (extended.keeps _ _) fun ⟨l, replaced⟩ =>
          ⟨l, replaced.concat (unreplaced i)⟩
      · exact .inl slot

theorem room_after (start : p.Sound) (ops : List Operation) : (p.after ops).size ≤ 0x10000 :=
  (size_after p ops).2.trans (max_le start.size (by decide))

theorem Sound.after (start : p.Sound) {ops : List Operation}
    (unreplaced : ∀ i k, .replace i k ∉ ops) : (p.after ops).Sound where
  texts b i found := by
    rcases slot_of_known start found with slot | ⟨k, replaced⟩
    · exact slot
    · exact absurd replaced.mem (unreplaced i k)
  size := room_after start ops

theorem exists_mem_concat {s : String} {ops : List Operation} {op : Operation} :
    (∃ op' ∈ ops ++ [op], s ∈ op'.texts) ↔ (∃ op' ∈ ops, s ∈ op'.texts) ∨ s ∈ op.texts := by
  simp only [List.mem_append, List.mem_singleton, or_and_right, exists_or, exists_eq_left]

/-- A text that is known stood in some slot at first, or has been interned. -/
theorem origin_of_known (start : p.Listed) {ops : List Operation} {s : String} {i : UInt16}
    (found : (p.after ops).texts.get? (ModifiedUtf8.encode s) = some i) :
    ¬p.Lacks (ModifiedUtf8.encode s) ∨ ∃ op ∈ ops, s ∈ op.texts := by
  induction ops using List.reverseRecOn with
  | nil => exact .inl fun lacks => lacks i.toNat (start.texts _ i found)
  | append_singleton ops op ih =>
    rw [after_concat] at found
    rw [exists_mem_concat, ← or_assoc]
    rcases replaces_or_extends op (p.after ops) with ⟨j, k, rfl⟩ | ⟨-, extended⟩
    · rw [run_replace] at found
      exact .inl (ih found)
    · rcases extended.learned _ i found with old | ⟨_, _, t, member, same⟩
      · exact .inl (ih old)
      · exact .inr (ModifiedUtf8.encode_injective same ▸ member)

theorem known_of_origin (start : p.Listed) {ops : List Operation} {s : String}
    (origin : ¬p.Lacks (ModifiedUtf8.encode s) ∨ ∃ op ∈ ops, s ∈ op.texts) :
    (∃ i, (p.after ops).texts.get? (ModifiedUtf8.encode s) = some i) ∨
      maxSize ≤ (p.after ops).size := by
  induction ops using List.reverseRecOn with
  | nil =>
    rcases origin with there | ⟨op, member, _⟩
    · obtain ⟨j, slot⟩ := not_forall_not.mp there
      exact .inl (start.lists _ j slot)
    · exact nomatch member
  | append_singleton ops op ih =>
    rw [exists_mem_concat, ← or_assoc] at origin
    rw [after_concat]
    -- A full pool takes no text any more, but it stays full.
    have grown := (size_run op (p.after ops)).1
    rcases replaces_or_extends op (p.after ops) with ⟨i, k, rfl⟩ | ⟨-, extended⟩
    · have before := ih (origin.resolve_right List.not_mem_nil)
      rw [run_replace] at grown ⊢
      exact before.imp_right fun full => full.trans grown
    · rcases origin with before | member
      · exact (ih before).imp (fun ⟨i, found⟩ => ⟨i, extended.known _ i found⟩) grown.trans'
      · exact extended.interned s member

theorem maintains_push_lacks {b : Bytes} {k : Constant} (other : k ≠ .utf8 b) :
    Maintains (Lacks · b) (push k) := by
  intro p h
  rw [run_push]
  split_ifs
  · exact h
  · intro i slot
    rw [← Array.getElem?_toList, append_slots] at slot
    rcases List.mem_append.mp (List.mem_of_getElem? slot) with old | new
    · obtain ⟨j, here⟩ := List.mem_iff_getElem?.mp old
      exact h j (Array.getElem?_toList.symm.trans here)
    · split_ifs at new
      · exact (List.mem_pair.mp new).elim (fun same => other same.symm) nofun
      · exact other (List.mem_singleton.mp new).symm

theorem maintains_internText_lacks {b : Bytes} {s : String} (other : ModifiedUtf8.encode s ≠ b) :
    Maintains (Lacks · b) (internText s) := by
  refine maintains_get.bind fun p => ?_
  cases p.texts.get? (ModifiedUtf8.encode s) with
  | some i => exact maintains_pure i
  | none =>
    have added := maintains_push_lacks fun same => other (Constant.utf8.inj same)
    exact added.bind fun i => .bind (maintains_modify fun _ h => h) fun _ => maintains_pure i

theorem maintains_intern_lacks {b : Bytes} {k : Constant} (other : k ≠ .utf8 b) :
    Maintains (Lacks · b) (intern k) := by
  refine maintains_get.bind fun p => ?_
  cases p.slots.findIdx? (· = k) with
  | some i => exact maintains_pure _
  | none => exact maintains_push_lacks other

namespace Operation

/-- The operation puts the constant into some slot, without looking whether it is a text. -/
def Puts (k : Constant) (op : Operation) : Prop := op = push k ∨ ∃ i, op = replace i k

theorem lacks_run {b : Bytes} {op : Operation} (h : p.Lacks b) (unput : ¬op.Puts (.utf8 b))
    (uninterned : ∀ s ∈ op.texts, ModifiedUtf8.encode s ≠ b) : (op.run p).Lacks b := by
  cases op with
  | push k => exact maintains_push_lacks (fun same => unput (.inl (same ▸ rfl))) p h
  | replace i k =>
    rw [run_replace]
    intro j slot
    by_cases here : i.toNat = j
    · obtain ⟨inside, put⟩ := Array.getElem?_eq_some_iff.mp slot
      have bound : j < p.slots.size := by
        simpa only [Array.size_setIfInBounds] using inside
      rw [Array.getElem_setIfInBounds bound, if_pos here] at put
      exact unput (.inr ⟨i, put ▸ rfl⟩)
    · exact h j ((Array.getElem?_setIfInBounds_ne here).symm.trans slot)
  | internText s => exact maintains_internText_lacks (uninterned s List.mem_cons_self) p h
  | internClass name =>
    have text := maintains_internText_lacks (uninterned name List.mem_cons_self)
    exact text.bind (fun n => maintains_intern_lacks (k := .classRef n) nofun) p h
  | internNameAndType name descriptor =>
    obtain ⟨first, second⟩ := List.forall_mem_cons.mp uninterned
    have text := maintains_internText_lacks (second descriptor List.mem_cons_self)
    exact (maintains_internText_lacks first).bind (fun n => text.bind fun d =>
      maintains_intern_lacks (k := .nameAndType n d) nofun) p h

end Operation

/-- What no slot holds at first, and nothing puts or interns, no slot holds later. -/
theorem lacks_after {ops : List Operation} {b : Bytes} (h : p.Lacks b)
    (unput : ∀ op ∈ ops, ¬op.Puts (.utf8 b))
    (uninterned : ∀ op ∈ ops, ∀ s ∈ op.texts, ModifiedUtf8.encode s ≠ b) :
    (p.after ops).Lacks b := by
  induction ops generalizing p with
  | nil => exact h
  | cons op ops ih =>
    obtain ⟨first, unput⟩ := List.forall_mem_cons.mp unput
    obtain ⟨first', uninterned⟩ := List.forall_mem_cons.mp uninterned
    exact ih (op.lacks_run h first first') unput uninterned

/-! The pools that a run starts with. -/

theorem Lists.appendRead (h : p.Lists) (k : Constant) : (p.appendRead k).Lists := by
  have old (b : Bytes) (known : ∃ j, p.texts.get? b = some j) :
      ∃ j, (p.appendRead k).texts.get? b = some j := by
    cases k with
    | utf8 b' =>
      show ∃ j, (p.texts.insertNew b' p.next).get? b = some j
      rw [Dict.get?_insertNew]
      split_ifs
      · exact ⟨_, rfl⟩
      · exact known
    | _ => exact known
  intro b i slot
  rw [appendRead_slots] at slot
  by_cases before : i < p.size
  · exact old b (h b i ((getElem?_append_of_lt p k before).symm.trans slot))
  · rw [← Array.getElem?_toList, append_slots,
      List.getElem?_append_right (by rw [Array.length_toList]; exact not_lt.mp before)] at slot
    have new : k = .utf8 b := by
      have member := List.mem_of_getElem? slot
      split_ifs at member
      · exact ((List.mem_pair.mp member).resolve_right Constant.noConfusion).symm
      · exact (List.mem_singleton.mp member).symm
    subst new
    show ∃ j, (p.texts.insertNew b p.next).get? b = some j
    rw [Dict.get?_insertNew, if_pos rfl]
    exact ⟨_, rfl⟩

theorem yields_readSlots_lists (n : ℕ) {p : ConstantPool} (h : p.Lists) :
    Reader.Yields (p.readSlots n) Lists := by
  -- A wide constant fills two slots, so the step is not always to the number before.
  induction n using Nat.strong_induction_on generalizing p with
  | _ n ih =>
    cases n with
    | zero => exact Reader.yields_pure h
    | succ n =>
      rw [readSlots_succ]
      refine (Reader.yields_true _).bind fun k _ => ih _ ?_ (h.appendRead k)
      have filled := k.slots_pos
      omega

theorem lists_empty : empty.Lists := by
  intro b i slot
  have member := List.mem_of_getElem? (Array.getElem?_toList.trans slot)
  exact nomatch List.mem_singleton.mp member

theorem Initial.listed (start : p.Initial) : p.Listed := by
  obtain rfl | ⟨s, t, done⟩ := start
  · exact ⟨sound_empty, lists_empty⟩
  · have lists : Reader.Yields read Lists :=
      (Reader.yields_true _).bind fun _ _ => yields_readSlots_lists _ lists_empty
    exact ⟨(yields_read s p t done).2, lists s p t done⟩

/-! What the operations tell. -/

theorem slot_of_push {k : Constant} (pushed : (push k).run p = (.ok i, q)) :
    q.slots[i.toNat]? = some k := by
  obtain ⟨room, rfl, rfl⟩ := push_eq_ok.mp pushed
  have filled := k.slots_pos
  have bound : p.size + k.slots ≤ 65535 := room
  rw [toNat_next (by omega)]
  exact getElem?_append_size p k

theorem slot_of_intern {k : Constant} (room : p.size ≤ 0x10000)
    (done : (intern k).run p = (.ok i, q)) : q.slots[i.toNat]? = some k := by
  rw [run_intern] at done
  cases known : p.slots.findIdx? (· = k) with
  | some j =>
    rw [known] at done
    obtain ⟨found, rfl⟩ := Prod.mk.inj done
    obtain ⟨inside, here, _⟩ := Array.findIdx?_eq_some_iff_getElem.mp known
    rw [← Except.ok.inj found, UInt16.toNat_ofNat_of_lt' (lt_of_lt_of_le inside room),
      Array.getElem?_eq_getElem inside, of_decide_eq_true here]
  | none =>
    rw [known] at done
    exact slot_of_push done

theorem known_of_internText {s : String} (done : (internText s).run p = (.ok i, q)) :
    q.texts.get? (ModifiedUtf8.encode s) = some i ∧
      (p.size < q.size ↔ p.texts.get? (ModifiedUtf8.encode s) = none) := by
  rw [run_internText] at done
  cases found : p.texts.get? (ModifiedUtf8.encode s) with
  | some j =>
    rw [found] at done
    obtain ⟨same, rfl⟩ := Prod.mk.inj done
    obtain rfl := Except.ok.inj same
    exact ⟨found, fun grown => absurd grown (lt_irrefl _), nofun⟩
  | none =>
    rw [found] at done
    dsimp only at done
    split_ifs at done with full
    · exact nomatch (Prod.mk.inj done).1
    · obtain ⟨same, rfl⟩ := Prod.mk.inj done
      obtain rfl := Except.ok.inj same
      have size := size_append p (.utf8 (ModifiedUtf8.encode s))
      have width : (Constant.utf8 (ModifiedUtf8.encode s)).slots = 1 := rfl
      refine ⟨?_, fun _ => rfl, fun _ => ?_⟩
      · show (p.texts.insert _ _).get? _ = _
        rw [Dict.get?_insert, if_pos rfl]
      · show p.size < (p.append _).size
        omega

theorem text_eq_ok_iff_holds {s : String} :
    q.text i = .ok s ↔ ∃ k, q.slots[i.toNat]? = some k ∧ k.Holds s := by
  rw [text_eq_ok]
  constructor
  · rintro ⟨b, slot, reads⟩
    exact ⟨_, slot, b, rfl, reads⟩
  · rintro ⟨_, slot, b, rfl, reads⟩
    exact ⟨b, slot, reads⟩

/-- Where a run has made a text known, or an interning behind it has, the text is still there just
if it has not been overwritten. -/
theorem text_of_known (start : p.Listed) {ops : List Operation} {names : List String}
    (extended : (p.after ops).Extends names q) {s : String}
    (known : q.texts.get? (ModifiedUtf8.encode s) = some i) :
    q.text i = .ok s ↔ ¬p.Overwritten ops i s := by
  rw [text_eq_ok_iff_holds]
  constructor
  · rintro ⟨k, slot, holds⟩ ⟨k', replaced, other⟩
    have same := (extended.keeps _ _ replaced.slot).symm.trans slot
    exact other (Option.some.inj same ▸ holds)
  · intro kept
    have text : (Constant.utf8 (ModifiedUtf8.encode s)).Holds s :=
      ⟨_, rfl, ModifiedUtf8.decode?_encode s⟩
    rcases extended.learned _ i known with old | ⟨_, slot, _⟩
    · rcases slot_of_known start.toSound old with slot | ⟨k, replaced⟩
      · exact ⟨_, extended.keeps _ _ slot, text⟩
      -- Another constant in the slot may read as `s` as well.
      · refine ⟨k, extended.keeps _ _ replaced.slot, ?_⟩
        by_contra other
        exact kept ⟨k, replaced, other⟩
    · exact ⟨_, slot, text⟩

/-- Interning adds a text that was not there at first and has not been interned since. -/
theorem grows_iff (start : p.Listed) {ops : List Operation} {s : String}
    (done : (internText s).run (p.after ops) = (.ok i, q)) :
    (p.after ops).size < q.size ↔
      p.Lacks (ModifiedUtf8.encode s) ∧ ∀ op ∈ ops, s ∉ op.texts := by
  obtain ⟨-, grows⟩ := known_of_internText done
  constructor
  · intro grown
    have unknown := grows.mp grown
    -- A pool that grows was not full, so an interned text would be known.
    have bound := (extends_of_internText done).bound
    have more : (p.after ops).size < maxSize :=
      (lt_max_iff.mp (lt_of_lt_of_le grown bound)).resolve_left (lt_irrefl _)
    have none : ¬(¬p.Lacks (ModifiedUtf8.encode s) ∨ ∃ op ∈ ops, s ∈ op.texts) := by
      intro origin
      rcases known_of_origin start origin with ⟨j, found⟩ | full
      · exact nomatch unknown.symm.trans found
      · exact absurd more (not_lt.mpr full)
    obtain ⟨lacks, uninterned⟩ := not_or.mp none
    exact ⟨not_not.mp lacks, fun op member named => uninterned ⟨op, member, named⟩⟩
  · rintro ⟨lacks, uninterned⟩
    refine grows.mpr (Option.eq_none_iff_forall_ne_some.mpr fun j found => ?_)
    rcases origin_of_known start found with there | ⟨op, member, named⟩
    · exact there lacks
    · exact uninterned op member named

theorem className_after (start : p.Listed) {ops : List Operation} {name : String}
    (done : (internClass name).run (p.after ops) = (.ok i, q)) :
    ∃ n, q.at? i = .ok (.classRef n) ∧
      (q.className i = .ok name ↔ ¬p.Overwritten ops n name) := by
  obtain ⟨n, q₁, named, done⟩ := edit_bind_eq_ok.mp done
  have first := extends_of_internText named
  have second := extends_of_intern done
  have slot := slot_of_intern (first.size_le (room_after start.toSound ops)) done
  have known := second.known _ _ (known_of_internText named).1
  refine ⟨n, at?_eq_ok.mpr slot, ?_⟩
  rw [← text_of_known start (first.trans second) known, className_eq_ok, slot]
  simp only [Option.some.injEq, Constant.classRef.injEq, exists_eq_left']

theorem nameAndType_after (start : p.Listed) {ops : List Operation} {name descriptor : String}
    (done : (internNameAndType name descriptor).run (p.after ops) = (.ok i, q)) :
    ∃ n d, q.at? i = .ok (.nameAndType n d) ∧ (q.nameAndType i = .ok (name, descriptor) ↔
      ¬p.Overwritten ops n name ∧ ¬p.Overwritten ops d descriptor) := by
  obtain ⟨n, q₁, named, done⟩ := edit_bind_eq_ok.mp done
  obtain ⟨d, q₂, described, done⟩ := edit_bind_eq_ok.mp done
  have first := extends_of_internText named
  have second := extends_of_internText described
  have third := extends_of_intern done
  have both := first.trans second
  have slot := slot_of_intern (both.size_le (room_after start.toSound ops)) done
  have known := third.known _ _ (second.known _ _ (known_of_internText named).1)
  have known' := third.known _ _ (known_of_internText described).1
  refine ⟨n, d, at?_eq_ok.mpr slot, ?_⟩
  rw [← text_of_known start (both.trans third) known,
    ← text_of_known start (both.trans third) known', nameAndType_eq_ok, slot]
  constructor
  · rintro ⟨n', d', same, texts⟩
    obtain ⟨rfl, rfl⟩ := Constant.nameAndType.inj (Option.some.inj same)
    exact texts
  · exact fun texts => ⟨n, d, rfl, texts⟩

/-- After any operations, pushing tells where the constant stands. Interning a text tells where one
stands that reads so, unless its slot has been given to something else; and it adds one just if none
was read and none interned before, so that a slot can hold the text already only where it was put
there by other means. Interning a class or a pair depends on its texts alone. -/
theorem promises_after {p : ConstantPool} (start : p.Initial) (ops : List Operation) :
    (∀ k i q, (push k).run (p.after ops) = (.ok i, q) → q.at? i = .ok k) ∧
    (∀ s i q, (internText s).run (p.after ops) = (.ok i, q) →
      (q.text i = .ok s ↔ ¬p.Overwritten ops i s) ∧
      ((p.after ops).size < q.size ↔
        p.Lacks (ModifiedUtf8.encode s) ∧ ∀ op ∈ ops, s ∉ op.texts) ∧
      ((p.after ops).size < q.size →
        (∀ op ∈ ops, ¬op.Puts (.utf8 (ModifiedUtf8.encode s))) →
          (p.after ops).Lacks (ModifiedUtf8.encode s))) ∧
    (∀ name i q, (internClass name).run (p.after ops) = (.ok i, q) →
      ∃ n, q.at? i = .ok (.classRef n) ∧
        (q.className i = .ok name ↔ ¬p.Overwritten ops n name)) ∧
    ∀ name descriptor i q, (internNameAndType name descriptor).run (p.after ops) = (.ok i, q) →
      ∃ n d, q.at? i = .ok (.nameAndType n d) ∧ (q.nameAndType i = .ok (name, descriptor) ↔
        ¬p.Overwritten ops n name ∧ ¬p.Overwritten ops d descriptor) := by
  have listed := start.listed
  refine ⟨fun k i q pushed => at?_eq_ok.mpr (slot_of_push pushed), fun s i q done => ?text,
    fun name i q => className_after listed, fun name descriptor i q => nameAndType_after listed⟩
  case text =>
    have extended := extends_of_internText done
    have known := (known_of_internText done).1
    refine ⟨text_of_known listed extended known, grows_iff listed done, fun grown unput => ?_⟩
    obtain ⟨lacks, uninterned⟩ := (grows_iff listed done).mp grown
    refine lacks_after lacks unput fun op member t named same => ?_
    exact uninterned op member (ModifiedUtf8.encode_injective same ▸ named)

/-- In a pool that was read, the first of two texts is overwritten and then asked for again, and the
second one is. -/
theorem promises_after_read :
    let p := (empty.appendRead (.utf8 [0x61])).appendRead (.utf8 [0x62])
    let ops : List Operation := [.replace 1 (.integer 0), .internText "c"]
    let q := p.after ops
    p.Initial ∧ p.Overwritten ops 1 "a" ∧
      ((internText "b").run q).2.text 2 = .ok "b" ∧ ((push (.long 7)).run q).2.at? 4 = .ok (.long 7) ∧
      p.Lacks [0x64] ∧ ∃ n, ((internClass "b").run q).2.at? 4 = .ok (.classRef n) := by
  intro p ops q
  have start : p.Initial := .inr ⟨[0, 3, 1, 0, 1, 0x61, 1, 0, 1, 0x62], [], by decide +kernel⟩
  obtain ⟨pushed, interned, classes, -⟩ := promises_after start ops
  have lost : ((internText "a").run q).2.text 1 ≠ .ok "a" := by decide +kernel
  have kept : ¬p.Overwritten ops 2 "b" := by
    rintro ⟨k, replaced, -⟩
    have member := replaced.mem
    simp [ops] at member
  have fresh : q.size < ((internText "d").run q).2.size := by decide +kernel
  have other := (interned "a" 1 _ rfl).1.not.mp lost
  have told : ((internClass "b").run q).1 = .ok 4 := by decide +kernel
  obtain ⟨n, slot, -⟩ := classes "b" 4 _ (Prod.ext told rfl)
  exact ⟨start, not_not.mp other, (interned "b" 2 _ rfl).1.mpr kept,
    pushed (.long 7) 4 _ rfl, ((interned "d" 4 _ rfl).2.1.mp fresh).1,
    n, slot⟩

/-- A replaced text is still told of, and one that was pushed is not known. -/
theorem text_lost_of_replace :
    (∃ q, (internText "x").run (empty.after [.internText "x", .replace 1 (.integer 0)]) = (.ok 1, q) ∧
      q.at? 1 = .ok (.integer 0) ∧ q.text 1 = .error (.invalidIndex 1)) ∧
    ∃ q, (internText "x").run (empty.after [.push (.utf8 [0x78])]) = (.ok 2, q) ∧
      (empty.after [.push (.utf8 [0x78])]).text 1 = .ok "x" ∧
      (empty.after [.push (.utf8 [0x78])]).size < q.size :=
  ⟨⟨_, rfl, rfl, rfl⟩, _, rfl, by decide +kernel, by decide +kernel⟩

end ConstantPool

end ModRemap
