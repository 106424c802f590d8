import Mathlib
import ModRemap.Proofs.CodeImage
import ModRemap.Proofs.PoolOperations
import ModRemap.Proofs.RenamedSymbols

/-! Where a method body is rewritten. A reader that only looks comes by the tables of local variables
and notes the places of their types; no other byte is touched. It trusts the number of variables that
a table tells, as remapping does, and where the length of each table agrees with that number, the
places are those that the layout of the body gives. -/

namespace ModRemap.Resolver

open Drafting

/-- Two bytes of a method body that name the type of a local variable. -/
structure TypeCell where
  table : LocalTable
  /-- The number of bytes before it. -/
  position : ℕ
  /-- The text that it names. -/
  type : String
deriving DecidableEq

namespace TypeCell

def Covers (c : TypeCell) (i : ℕ) : Prop := c.position ≤ i ∧ i < c.position + 2

def Changes (r : Resolver) (c : TypeCell) : Prop := r.localType c.table c.type ≠ c.type

def place (c : TypeCell) : LocalTable × ℕ := (c.table, c.position)

end TypeCell

/-- Where the types of so many variables stand, whose number is at `start`. -/
def typePlaces (table : LocalTable) (start count : ℕ) : List (LocalTable × ℕ) :=
  (List.range count).map fun i => (table, start + 2 + 10 * i + 6)

structure VariableTable where
  table : LocalTable
  /-- Where the number of its variables stands. -/
  start : ℕ
  /-- The length that it declares. -/
  length : ℕ
  cells : List TypeCell
deriving DecidableEq

/-- The declared length agrees with the number of variables. -/
def VariableTable.Regular (t : VariableTable) : Prop := t.length = 2 + 10 * t.cells.length

section Visit

variable (p : ConstantPool) (size : ℕ)

/-- The number of bytes that have been read of `size` ones. -/
def passed : Reader ℕ := fun s => .ok (size - s.length, s)

def looking (index : UInt16) : Reader String := fun s => do
  return (← p.text index, s)

def visitCell (table : LocalTable) : Reader TypeCell := do
  let _ ← Reader.take 6
  let position ← passed size
  let index ← Reader.u2
  let _ ← Reader.take 2
  return ⟨table, position, ← looking p index⟩

def visitBody (name : String) (length : ℕ) : Reader (List VariableTable) :=
  match LocalTable.ofName? name with
  | none => do
    let _ ← Reader.take length
    return []
  | some table => do
    let start ← passed size
    let cells ← Reader.counted (visitCell p size table)
    return [⟨table, start, length, cells⟩]

def visitAttributes : ℕ → Reader (List VariableTable)
  | 0 => return []
  | n + 1 => do
    let (name, length) ← readAttributeFront
    let tables ← visitBody p size (← looking p name) length.toNat
    return tables ++ (← visitAttributes n)

/-- The tables of local variables in a method body, in the order in which they are come by. -/
def visit (info : Bytes) : Except ClassError (List VariableTable) := do
  let (tables, _) ←
    (readCodeFront >>= fun count => visitAttributes p info.length count.toNat) info
  return tables

end Visit

/-! The layout of a method body. -/

structure MethodBody where
  limits : Bytes
  code : Bytes
  handlers : Bytes
  attributes : List Attribute
deriving DecidableEq

def MethodBody.read : Reader MethodBody := do
  let limits ← Reader.take 4
  let length ← Reader.u4
  let code ← Reader.take length.toNat
  let count ← Reader.u2
  let handlers ← Reader.take (count.toNat * 8)
  return ⟨limits, code, handlers, ← Reader.counted Attribute.read⟩

def tableOf? (p : ConstantPool) (name : UInt16) : Option LocalTable :=
  (p.text name).toOption.bind LocalTable.ofName?

/-- Where the types of local variables stand in attributes that begin at `start`. -/
def placesFrom (p : ConstantPool) : ℕ → List Attribute → List (LocalTable × ℕ)
  | _, [] => []
  | start, a :: as =>
    -- The name and the length of an attribute take six bytes.
    (tableOf? p a.name).toList.flatMap (typePlaces · (start + 6) ((a.info.length - 2) / 10)) ++
      placesFrom p (start + 6 + a.info.length) as

def MethodBody.places (p : ConstantPool) (body : MethodBody) : List (LocalTable × ℕ) :=
  placesFrom p (12 + body.code.length + body.handlers.length) body.attributes

/-- The two bytes behind the first `i` ones are the index of the text. -/
def Designates (p : ConstantPool) (b : Bytes) (i : ℕ) (s : String) : Prop :=
  ∃ front index back, b = front ++ Bytes.ofU2 index ++ back ∧ front.length = i ∧
    p.text index = .ok s

/-- Bytes that begin at `start`, before and after the types in the cells are mapped. -/
structure Patch (r : Resolver) (p : ConstantPool) (start : ℕ) (cells : List TypeCell)
    (b b' : Bytes) : Prop where
  length : b'.length = b.length
  others : ∀ i, (∀ c ∈ cells, ¬c.Covers (start + i)) → b'[i]? = b[i]?
  named : ∀ c ∈ cells, ∃ i, c.position = start + i ∧ Designates p b i c.type ∧
    Designates p b' i (r.localType c.table c.type)

variable {r : Resolver} {p q : ConstantPool}

namespace Designates

variable {b : Bytes} {i : ℕ} {s : String}

theorem mono (evolves : p.Evolves q) (h : Designates p b i s) : Designates q b i s := by
  obtain ⟨front, index, back, split, length, named⟩ := h
  exact ⟨front, index, back, split, length, evolves.text named⟩

theorem append (h : Designates p b i s) (c : Bytes) : Designates p (b ++ c) i s := by
  obtain ⟨front, index, back, rfl, length, named⟩ := h
  exact ⟨front, index, back ++ c, List.append_assoc _ back c, length, named⟩

theorem prepend (h : Designates p b i s) (c : Bytes) : Designates p (c ++ b) (c.length + i) s := by
  obtain ⟨front, index, back, rfl, rfl, named⟩ := h
  refine ⟨c ++ front, index, back, ?_, List.length_append, named⟩
  simp only [List.append_assoc]

theorem of_text {index : UInt16} (named : p.text index = .ok s) :
    Designates p (Bytes.ofU2 index) 0 s :=
  ⟨[], index, [], (List.append_nil _).symm, rfl, named⟩

end Designates

namespace Patch

variable {start : ℕ} {cells cells' : List TypeCell} {b b' c c' : Bytes}

theorem same (r : Resolver) (p : ConstantPool) (start : ℕ) (b : Bytes) : Patch r p start [] b b where
  length := rfl
  others _ _ := rfl
  named := nofun

theorem mono (evolves : p.Evolves q) (h : Patch r p start cells b b') :
    Patch r q start cells b b' where
  length := h.length
  others := h.others
  named c member := by
    obtain ⟨i, here, old, new⟩ := h.named c member
    exact ⟨i, here, old.mono evolves, new.mono evolves⟩

theorem append (h : Patch r p start cells b b')
    (h' : Patch r p (start + b.length) cells' c c') :
    Patch r p start (cells ++ cells') (b ++ c) (b' ++ c') where
  length := by rw [List.length_append, List.length_append, h.length, h'.length]
  others i outside := by
    rcases Nat.lt_or_ge i b.length with front | back
    · rw [List.getElem?_append_left (h.length ▸ front), List.getElem?_append_left front]
      exact h.others i fun c member => outside c (List.mem_append_left _ member)
    · rw [List.getElem?_append_right (h.length ▸ back), List.getElem?_append_right back, h.length]
      refine h'.others (i - b.length) fun c member => ?_
      rw [show start + b.length + (i - b.length) = start + i by omega]
      exact outside c (List.mem_append_right _ member)
  named x member := by
    rcases List.mem_append.mp member with member | member
    · obtain ⟨i, here, old, new⟩ := h.named x member
      exact ⟨i, here, old.append c, new.append c'⟩
    · obtain ⟨i, here, old, new⟩ := h'.named x member
      exact ⟨b.length + i, here.trans (Nat.add_assoc ..), old.prepend b,
        h.length ▸ new.prepend b'⟩

/-- What stands on both sides of a patch stays. -/
theorem within (h : Patch r p (start + c.length) cells b b') (c' : Bytes) :
    Patch r p start cells (c ++ b ++ c') (c ++ b' ++ c') := by
  have whole := ((same r p start c).append h).append (same r p _ c')
  rwa [List.nil_append, List.append_nil] at whole

theorem cell {table : LocalTable} {index index' : UInt16} {type : String}
    (old : p.text index = .ok type) (new : p.text index' = .ok (r.localType table type)) :
    Patch r p start [⟨table, start, type⟩] (Bytes.ofU2 index) (Bytes.ofU2 index') where
  length := rfl
  others i outside := by
    have behind : 2 ≤ i := by
      by_contra inside
      exact outside _ List.mem_cons_self ⟨Nat.le_add_right _ _, by dsimp only; omega⟩
    rw [List.getElem?_eq_none behind, List.getElem?_eq_none behind]
  named c member := by
    rw [List.mem_singleton.mp member]
    exact ⟨0, rfl, .of_text old, .of_text new⟩

end Patch

/-- What a part of remapping a method body does to the draft and to the bytes that it takes, which
begin at `start`. -/
structure Rewrites (r : Resolver) (d d' : Draft) (start : ℕ) (cells : List TypeCell)
    (b b' : Bytes) : Prop extends d.Adds r d' where
  patch : Patch r d'.pool start cells b b'
  marks : d'.changed = true ↔ d.changed = true ∨ ∃ c ∈ cells, c.Changes r

namespace Rewrites

variable {d d' d'' : Draft} {start : ℕ} {cells cells' : List TypeCell} {b b' c c' : Bytes}

theorem same (sound : d.pool.Sound) (start : ℕ) (b : Bytes) : Rewrites r d d start [] b b :=
  ⟨.refl sound, .same r d.pool start b, .inl, fun h => h.elim id nofun⟩

theorem append (h : Rewrites r d d' start cells b b')
    (h' : Rewrites r d' d'' (start + b.length) cells' c c') :
    Rewrites r d d'' start (cells ++ cells') (b ++ c) (b' ++ c') where
  toAdds := h.toAdds.trans h'.toAdds
  patch := (h.patch.mono h'.evolves).append h'.patch
  marks := by
    rw [h'.marks, h.marks, or_assoc]
    simp only [List.mem_append, or_and_right, exists_or]

theorem within (h : Rewrites r d d' (start + c.length) cells b b') (c' : Bytes) :
    Rewrites r d d' start cells (c ++ b ++ c') (c ++ b' ++ c') :=
  ⟨h.toAdds, h.patch.within c', h.marks⟩

theorem behind (h : Rewrites r d d' (start + c.length) cells b b') :
    Rewrites r d d' start cells (c ++ b) (c ++ b') := by
  have whole := h.within []
  rwa [List.append_nil, List.append_nil] at whole

end Rewrites

/-! What remapping takes is what the looking reader takes, in the pool as it is then or later. -/

variable {d d' : Draft}

theorem MethodBody.reads_read {limits code handlers attributes : Bytes} {length : UInt32}
    {entries count : UInt16} {as : List Attribute} (four : limits.length = 4)
    (coded : code.length = length.toNat) (handled : handlers.length = entries.toNat * 8)
    (reads : Reader.Reads (Reader.times Attribute.read count.toNat) attributes as) :
    Reader.Reads MethodBody.read (limits ++ (Bytes.ofU4 length ++ (code ++ (Bytes.ofU2 entries ++
      (handlers ++ (Bytes.ofU2 count ++ attributes)))))) ⟨limits, code, handlers, as⟩ := by
  have first : Reader.Reads (Reader.take 4) limits limits := four ▸ Reader.reads_take limits
  have second : Reader.Reads (Reader.take length.toNat) code code := coded ▸ Reader.reads_take code
  have third : Reader.Reads (Reader.take (entries.toNat * 8)) handlers handlers :=
    handled ▸ Reader.reads_take handlers
  have last : Reader.Reads (Reader.counted Attribute.read) (Bytes.ofU2 count ++ attributes) as :=
    (Reader.reads_u2 count).bind reads
  exact first.bind ((Reader.reads_u4 length).bind (second.bind ((Reader.reads_u2 entries).bind
    (third.bind last.map))))

deriving instance DecidableEq for Draft

end ModRemap.Resolver
