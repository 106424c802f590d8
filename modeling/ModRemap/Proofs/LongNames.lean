import Mathlib
import ModRemap.Mapping.Index
import ModRemap.Proofs.Dict
import ModRemap.Proofs.ModifiedUtf8
import ModRemap.Proofs.RetainedParts

/-! Names that a class file has no room for. What is added to the pool is counted but not measured,
so that a class is written under any name that a table gives, and read back under short ones. -/

namespace ModRemap

namespace ConstantPool

/-- The pool with one more text. -/
def withText (p : ConstantPool) (s : String) : ConstantPool :=
  { p.append (.utf8 (ModifiedUtf8.encode s)) with
    texts := p.texts.insert (ModifiedUtf8.encode s) p.next }

/-- Of what is interned, only the number of slots has to fit. -/
theorem internText_of_new {p : ConstantPool} {s : String}
    (new : p.texts.get? (ModifiedUtf8.encode s) = none) (room : p.size < 65535) :
    (internText s).run p = (.ok p.next, p.withText s) := by
  refine edit_bind_eq_ok.mpr ⟨p, p, rfl, ?_⟩
  rw [new]
  refine edit_bind_eq_ok.mpr ⟨p.next, _, push_eq_ok.mpr ⟨room, rfl, rfl⟩, ?_⟩
  exact edit_bind_eq_ok.mpr ⟨(), _, rfl, rfl⟩

end ConstantPool

theorem Drafting.retext_of_new {d : Draft} {index : UInt16} {old new : String} (other : new ≠ old)
    (fresh : d.pool.texts.get? (ModifiedUtf8.encode new) = none) (room : d.pool.size < 65535) :
    retext index old new d = .ok (d.pool.next, ⟨d.pool.withText new, true⟩) := by
  have interned := ConstantPool.internText_of_new fresh room
  rw [retext, if_neg other]
  exact stateT_bind_eq_ok.mpr ⟨_, { d with pool := d.pool.withText new },
    onPool_eq_ok.mpr ⟨interned, rfl⟩, rfl⟩

namespace ClassFile

variable {bytes : Bytes} {c : ClassFile}

/-- The class comes out of the bytes, and so does its header. -/
def ReadFrom (c : ClassFile) (bytes : Bytes) : Prop :=
  ∃ p, p.slots = c.pool.slots ∧ parse bytes = .ok { c with pool := p } ∧
    parseHeader bytes = c.header

/-- A name that is read stood behind a 16-bit length. -/
theorem length_name_le {s : String} (parsed : parse bytes = .ok c) (named : c.name = .ok s) :
    s.length ≤ 65535 := by
  obtain ⟨n, _, text⟩ := ConstantPool.className_eq_ok.mp named
  obtain ⟨b, slot, read⟩ := ConstantPool.text_eq_ok.mp text
  have bound : b.length < 0x10000 := (storable_of_parse parsed).1.pool.constants (.utf8 b)
    (Array.mem_toList_iff.mpr (Array.mem_of_getElem? slot))
  obtain ⟨cs, decoded, rfl⟩ := Option.map_eq_some_iff.mp read
  obtain ⟨us, units, chars⟩ := Option.bind_eq_some_iff.mp decoded
  have short : cs.length ≤ b.length :=
    (Utf16.length_decode?_le us chars).trans (ModifiedUtf8.length_units?_le b units)
  rw [String.length_ofList]
  omega

end ClassFile

namespace Resolver

open Drafting

variable {r : Resolver} {bytes : Bytes} {out : Renamed} {c c' : ClassFile} {owner : String}

def renameHeader (r : Resolver) (h : ClassHeader) : ClassHeader :=
  ⟨r.classConstant h.name, h.superclass.map r.classConstant, h.interfaces.map r.classConstant⟩

theorem ClassImage.classNames (image : r.ClassImage owner c c') {is : List UInt16}
    {names : List String} (read : is.mapM c.pool.className = .ok names) :
    is.mapM c'.pool.className = .ok (names.map r.classConstant) := by
  induction is generalizing names with
  | nil =>
    obtain rfl := Except.ok.inj read
    rfl
  | cons i is ih =>
    rw [List.mapM_cons] at read ⊢
    obtain ⟨name, first, read⟩ := except_bind_eq_ok.mp read
    obtain ⟨others, rest, read⟩ := except_bind_eq_ok.mp read
    obtain rfl := Except.ok.inj read
    exact except_bind_eq_ok.mpr ⟨_, image.className first,
      except_bind_eq_ok.mpr ⟨_, ih rest, rfl⟩⟩

theorem ClassImage.header_eq_ok (image : r.ClassImage owner c c') {h : ClassHeader}
    (read : c.header = .ok h) : c'.header = .ok (r.renameHeader h) := by
  obtain ⟨_, _, _, _, superSame, interfacesSame⟩ := image.header
  obtain ⟨super, superRead, read⟩ := except_ite_bind_eq_ok.mp read
  obtain ⟨name, named, read⟩ := except_bind_eq_ok.mp read
  obtain ⟨names, listed, read⟩ := except_bind_eq_ok.mp read
  obtain rfl := Except.ok.inj read
  have superRead' : (if c'.superclass = 0 then pure none
      else some <$> c'.pool.className c'.superclass) = .ok (super.map r.classConstant) := by
    rw [superSame]
    split_ifs at superRead ⊢ with none
    · obtain rfl := Except.ok.inj superRead
      rfl
    · cases found : c.pool.className c.superclass with
      | error e => exact nomatch found ▸ superRead
      | ok s =>
        rw [found] at superRead
        obtain rfl := Except.ok.inj superRead
        rw [image.className found]
        rfl
  have listed' := image.classNames listed
  rw [← interfacesSame] at listed'
  exact except_ite_bind_eq_ok.mpr ⟨_, superRead', except_bind_eq_ok.mpr ⟨_, image.name named,
    except_bind_eq_ok.mpr ⟨_, listed', rfl⟩⟩⟩

/-- What is written is read back under the new name just where it fits, and a class in which
nothing changes always is. -/
theorem readFrom_remapClass_iff (r : Resolver) {bytes : Bytes} {out : Renamed} {c : ClassFile}
    (remapped : r.remapClass bytes = .ok out) (parsed : ClassFile.parse bytes = .ok c) :
    ∃ c', r.ClassImage out.old c c' ∧ c.name = .ok out.old ∧ c'.name = .ok out.new ∧
      (∀ h, ClassFile.parseHeader bytes = .ok h → c'.header = .ok (r.renameHeader h)) ∧
      c'.HeldIn out.bytes ∧
      (c'.ReadFrom out.bytes ↔ out.bytes = bytes ∧ c' = c ∨ r.Fits c out.old) := by
  have header := ClassFile.parseHeader_of_parse parsed
  obtain ⟨c', image, named, renamed, written⟩ := exists_written remapped parsed
  refine ⟨c', image, named, renamed, fun h read => image.header_eq_ok (header ▸ read), ?_⟩
  rcases written with ⟨same, rfl⟩ | ⟨written, encodable⟩
  · refine ⟨.inl (same ▸ parsed), fun _ => .inl ⟨same, rfl⟩, fun _ => ?_⟩
    exact ⟨c'.pool, rfl, same ▸ parsed, same ▸ header⟩
  · refine ⟨.inr written, ?_, ?_⟩
    · rintro ⟨p, slots, read, _⟩
      exact .inr (encodable.mp (ClassFile.parse_write_iff.mp ⟨p, slots, written ▸ read⟩))
    · rintro (⟨same, rfl⟩ | fits)
      · exact ⟨c'.pool, rfl, same ▸ parsed, same ▸ header⟩
      · obtain ⟨p, slots, read⟩ := ClassFile.parse_write_iff.mpr (encodable.mpr fits)
        refine ⟨p, slots, written ▸ read, ?_⟩
        rw [written, ClassFile.parseHeader_of_parse read, ClassFile.header_of_slots_eq slots]

open ClassFile in
/-- A class with a superclass and an interface, of which the table lists the first two. -/
theorem readFrom_remapClass_parents :
    let r : Resolver := ⟨⟨"s", "t",
      Dict.ofList [("a", ⟨"b", [], []⟩), ("p", ⟨"q", [], []⟩)], ∅⟩, ∅⟩
    let c := blank.edited do init "a" (some "p"); addInterface "i"
    let c₁ := c.edited do
      let b ← onPool (ConstantPool.internText "b")
      onPool (ConstantPool.replace 2 (.classRef b))
      let q ← onPool (ConstantPool.internText "q")
      onPool (ConstantPool.replace 4 (.classRef q))
    r.remapClass c.write = .ok ⟨"a", "b", c₁.write⟩ ∧ parse c.write = .ok c ∧ r.Fits c "a" ∧
      ∃ c', r.ClassImage "a" c c' ∧ c'.ReadFrom c₁.write ∧ c'.name = .ok "b" ∧
        c'.header = .ok ⟨"b", some "q", ["i"]⟩ := by
  intro r c c₁
  have remapped : r.remapClass c.write = .ok ⟨"a", "b", c₁.write⟩ := by decide +kernel
  have parsed : parse c.write = .ok c := by decide +kernel
  have read : parseHeader c.write = .ok ⟨"a", some "p", ["i"]⟩ := by decide +kernel
  have added : r.appended c "a" = [.utf8 [0x62], .utf8 [0x71]] := by decide +kernel
  have size : c.pool.size ≤ 65535 := by decide +kernel
  have fits : r.Fits c "a" := by
    refine ⟨size, fun text h => ?_⟩
    rw [added] at h
    simp only [List.mem_cons, Constant.utf8.injEq, List.not_mem_nil, or_false] at h
    rcases h with rfl | rfl <;> decide
  obtain ⟨c', image, _, renamed, header, _, reads⟩ := readFrom_remapClass_iff r remapped parsed
  exact ⟨remapped, parsed, fits, c', image, reads.mpr (.inr fits), renamed, header _ read⟩

/-- A class without parents and members takes any name that the table gives it. -/
theorem exists_remapClass_of_name (target : String) (other : target ≠ "a") :
    let ix : MappingIndex := ⟨"intermediary", "named",
      Dict.ofList [("a", ⟨target, [], []⟩)], Dict.ofList [(target, "a")]⟩
    let c := ClassFile.blank.edited (ClassFile.init "a" none)
    ∃ out, (⟨ix, ∅⟩ : Resolver).remapClass c.write = .ok out ∧ out.new = target := by
  intro ix c
  let r : Resolver := ⟨ix, ∅⟩
  have parsed : ClassFile.parse c.write = .ok c := by decide +kernel
  have named : c.name = .ok "a" := by decide +kernel
  have slots : c.pool.slots.toList.tail = [.utf8 [0x61], .classRef 1] := by decide +kernel
  have text : c.pool.text 1 = .ok "a" := by decide +kernel
  have texts : c.pool.texts = Dict.ofList [([0x61], 1)] := by decide +kernel
  have size : c.pool.size = 3 := by decide +kernel
  have tables : c.fields = [] ∧ c.methods = [] ∧ c.attributes = [] := by decide +kernel
  have next : c.pool.next = 3 := by decide +kernel
  clear_value c
  have fresh : c.pool.texts.get? (ModifiedUtf8.encode target) = none := by
    by_contra found
    obtain ⟨i, found⟩ := Option.ne_none_iff_exists'.mp found
    rw [texts] at found
    obtain ⟨same, _⟩ := Prod.mk.inj (List.mem_singleton.mp (Dict.mem_of_get?_ofList found))
    have known : ModifiedUtf8.encode "a" = [0x61] := by decide +kernel
    exact other (ModifiedUtf8.encode_injective (same.trans known.symm))
  let p := c.pool.withText target
  have room : c.pool.size < 65535 := by
    rw [size]
    decide
  have marked : retext 1 "a" target ⟨c.pool, false⟩ = .ok (3, ⟨p, true⟩) :=
    next ▸ retext_of_new other fresh room
  have changed : r.remapConstant c (.classRef 1) ⟨c.pool, false⟩ = .ok (.classRef 3, ⟨p, true⟩) :=
    stateT_bind_eq_ok.mpr ⟨"a", _, liftM_eq_ok.mpr ⟨text, rfl⟩,
      stateT_bind_eq_ok.mpr ⟨3, _, marked, rfl⟩⟩
  have replaced : r.remapSlots c 1 [.utf8 [0x61], .classRef 1] ⟨c.pool, false⟩ =
      .ok ((), ⟨{ p with slots := p.slots.setIfInBounds 2 (.classRef 3) }, true⟩) := by
    refine stateT_bind_eq_ok.mpr ⟨.utf8 [0x61], ⟨c.pool, false⟩, rfl, ?_⟩
    refine (stateT_ite_bind_eq_ok (y := pure ())).mpr ⟨(), ⟨c.pool, false⟩, rfl, ?_⟩
    refine stateT_bind_eq_ok.mpr ⟨.classRef 3, ⟨p, true⟩, changed, ?_⟩
    rw [if_pos (by decide)]
    have room : 2 < p.size := by
      show 2 < (c.pool.append _).size
      rw [ConstantPool.size_append, size]
      exact Nat.lt_add_right _ (by decide)
    refine stateT_bind_eq_ok.mpr
      ⟨(), ⟨{ p with slots := p.slots.setIfInBounds 2 (.classRef 3) }, true⟩, ?_, rfl⟩
    exact onPool_eq_ok.mpr ⟨ConstantPool.replace_eq_ok.mpr ⟨room, rfl⟩, rfl⟩
  have tables : r.remapTables c "a" ⟨c.pool, false⟩ =
      .ok ({ c with fields := [], methods := [], attributes := [] },
        ⟨{ p with slots := p.slots.setIfInBounds 2 (.classRef 3) }, true⟩) := by
    rw [remapTables, slots, tables.1, tables.2.1, tables.2.2]
    exact stateT_bind_eq_ok.mpr ⟨(), _, replaced, rfl⟩
  obtain ⟨storable, sound⟩ := ClassFile.storable_of_parse parsed
  obtain ⟨_, _, image⟩ := remapTables_spec storable.pool sound tables
  exact ⟨⟨"a", target, _⟩, remapClass_eq_ok.mpr ⟨c, _, _, parsed, named, tables, image.name named,
    rfl⟩, rfl⟩

/-- A full pool is an error and a text that is too long is none: a class is written under a name of
65536 letters, and is not read back under it. -/
theorem not_read_of_long :
    let long := String.ofList (List.replicate 65536 'b')
    let t : MappingTable := ⟨["intermediary", "named"], [⟨["a", long], [], []⟩]⟩
    let c := ClassFile.blank.edited (ClassFile.init "a" none)
    ∃ ix out, MappingIndex.build t "intermediary" "named" = .ok ix ∧
      (⟨ix, ∅⟩ : Resolver).remapClass c.write = .ok out ∧ out.new = long ∧
      ¬∃ c', ClassFile.parse out.bytes = .ok c' ∧ c'.name = .ok out.new := by
  intro long t c
  have length : long.length = 65536 := by
    rw [String.length_ofList, List.length_replicate]
  clear_value long
  have other : long ≠ "a" := by
    rintro rfl
    exact absurd length (by decide)
  obtain ⟨out, remapped, new⟩ := exists_remapClass_of_name long other
  refine ⟨_, out, rfl, remapped, new, ?_⟩
  rintro ⟨c', parsed, named⟩
  have short := ClassFile.length_name_le parsed named
  rw [new, length] at short
  omega

end Resolver

end ModRemap
