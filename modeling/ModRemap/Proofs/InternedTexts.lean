import Mathlib
import ModRemap.Proofs.PoolOperations
import ModRemap.Proofs.TextForms

/-! Texts are interned by their bytes. As no two texts have the same bytes, and none has any but
well-formed ones, this interns them one by one. -/

namespace ModRemap.ConstantPool

variable {p q q' : ConstantPool} {i j : UInt16} {s t : String}

/-- Each text that is known has an index of its own. -/
structure Separate (p : ConstantPool) : Prop where
  inside : ∀ b i, p.texts.get? b = some i → i.toNat < p.size
  apart : ∀ b b' i, p.texts.get? b = some i → p.texts.get? b' = some i → b = b'

theorem Sound.separate (h : p.Sound) : p.Separate where
  inside b i found := (Array.getElem?_eq_some_iff.mp (h.texts b i found)).1
  apart b b' i found found' := by
    have same := (h.texts b i found).symm.trans (h.texts b' i found')
    exact Constant.utf8.inj (Option.some.inj same)

theorem Extends.separate {names : List String} (h : p.Extends names q) (old : p.Separate) :
    q.Separate where
  inside b i found := by
    rcases h.learned b i found with known | ⟨_, slot, _⟩
    · exact (old.inside b i known).trans_le h.keeps.size_le
    · exact (Array.getElem?_eq_some_iff.mp slot).1
  apart b b' i found found' := by
    -- What is learned stands behind all that was known.
    rcases h.learned b i found with known | ⟨behind, slot, _⟩
    · rcases h.learned b' i found' with known' | ⟨behind', _⟩
      · exact old.apart b b' i known known'
      · exact absurd (old.inside b i known) (not_lt.mpr behind')
    · rcases h.learned b' i found' with known' | ⟨_, slot', _⟩
      · exact absurd (old.inside b' i known') (not_lt.mpr behind)
      · exact Constant.utf8.inj (Option.some.inj (slot.symm.trans slot'))

theorem Separate.run (h : p.Separate) (op : Operation) : (op.run p).Separate := by
  rcases replaces_or_extends op p with ⟨i, k, rfl⟩ | ⟨-, extended⟩
  · rw [run_replace]
    refine ⟨fun b j found => ?_, h.apart⟩
    rw [ConstantPool.size, Array.size_setIfInBounds]
    exact h.inside b j found
  · exact extended.separate h

theorem Separate.after (h : p.Separate) (ops : List Operation) : (p.after ops).Separate := by
  induction ops generalizing p with
  | nil => exact h
  | cons op ops ih => exact ih (h.run op)

theorem known_run {b : Bytes} (found : p.texts.get? b = some i) (op : Operation) :
    (op.run p).texts.get? b = some i := by
  rcases replaces_or_extends op p with ⟨j, k, rfl⟩ | ⟨-, extended⟩
  · rw [run_replace]
    exact found
  · exact extended.known b i found

theorem known_after {b : Bytes} (found : p.texts.get? b = some i) (ops : List Operation) :
    (p.after ops).texts.get? b = some i := by
  induction ops generalizing p with
  | nil => exact found
  | cons op ops ih => exact ih (known_run found op)

theorem index_eq_iff (start : p.Sound) {ops ops' : List Operation}
    (done : (internText s).run (p.after ops) = (.ok i, q))
    (done' : (internText t).run (q.after ops') = (.ok j, q')) : i = j ↔ s = t := by
  have first := extends_of_internText done
  have second := extends_of_internText done'
  have known : q'.texts.get? (ModifiedUtf8.encode s) = some i :=
    second.known _ i (known_after (known_of_internText done).1 ops')
  have known' := (known_of_internText done').1
  constructor
  · rintro rfl
    have separate := second.separate ((first.separate (start.separate.after ops)).after ops')
    exact ModifiedUtf8.encode_injective (separate.apart _ _ i known known')
  · rintro rfl
    exact Option.some.inj (known.symm.trans known')

open ModifiedUtf8

/-- Other bytes may be read as the text too, but they are not what interning looks for. -/
theorem lacks_encode_iff : p.Lacks (encode s) ↔
    ∀ (k : ℕ) us b, p.slots[k]? = some (.utf8 b) → Written us b → decode? b ≠ some s := by
  constructor
  · intro lacks k us b slot written reads
    obtain ⟨t, -, back, rfl⟩ := written_iff.mp written
    obtain rfl := Option.some.inj (back.symm.trans reads)
    exact lacks k slot
  · intro free k slot
    have back := ModifiedUtf8.decode?_encode s
    exact free k _ _ slot (written_iff.mpr ⟨s, rfl, back, rfl⟩) back

/-- A text is read back from its bytes, none of which is zero or announces three more, and the bytes of
texts are the well-formed ones. So interning by bytes is interning by text: a text is added just if it
was not read, from well-formed bytes, and has not been interned, and two texts share an index just if
they are the same. -/
theorem texts_faithful :
    (∀ s, decode? (encode s) = some s) ∧ Function.Injective encode ∧
    (∀ s, ∀ b ∈ encode s, b ≠ 0 ∧ b < 0xF0) ∧
    (∀ us bytes, Written us bytes ↔
      ∃ s : String, Utf16.encode s.toList = us ∧ decode? bytes = some s ∧ encode s = bytes) ∧
    ∀ p : ConstantPool, p.Initial → ∀ ops s i q, (internText s).run (p.after ops) = (.ok i, q) →
      ((p.after ops).size < q.size ↔
        (∀ (k : ℕ) us b, p.slots[k]? = some (.utf8 b) → Written us b → decode? b ≠ some s) ∧
          ∀ op ∈ ops, s ∉ op.texts) ∧
      ∀ ops' t j q', (internText t).run (q.after ops') = (.ok j, q') → (i = j ↔ s = t) := by
  refine ⟨ModifiedUtf8.decode?_encode, encode_injective, fun s => (forms_iff.mpr rfl).bounds,
    fun us bytes => written_iff, fun p start ops s i q done => ?interned⟩
  case interned =>
    have listed := start.listed
    rw [← lacks_encode_iff]
    exact ⟨grows_iff listed done, fun ops' t j q' => index_eq_iff listed.toSound done⟩

/-- A pool with the bytes of a text and with a plain zero. The zero is read as a text too, but interning
that text does not find it. -/
theorem texts_faithful_zero :
    let bytes : Bytes := [0x61, 0xC0, 0x80, 0xED, 0xA0, 0xBD, 0xED, 0xB8, 0x80]
    let s := String.ofList ['a', '\x00', Char.ofNat 0x1F600]
    let p := (empty.appendRead (.utf8 bytes)).appendRead (.utf8 [0])
    let q := p.after [.internText "b"]
    Written [0x61, 0, 0xD83D, 0xDE00] bytes ∧ (∃ t, decode? bytes = some t ∧ encode t = bytes) ∧
      p.Initial ∧ ((internText s).run q).1 = .ok 1 ∧ ¬q.size < ((internText s).run q).2.size ∧
      decode? [0] = some "\x00" ∧ ((internText "\x00").run q).1 = .ok 4 ∧ (∀ us, ¬Written us [0]) ∧
      s ≠ "\x00" := by
  intro bytes s p q
  obtain ⟨-, -, -, wellFormed, interned⟩ := texts_faithful
  have written : Written [0x61, 0, 0xD83D, 0xDE00] bytes :=
    ⟨.cons (.one (a := 0x61) (by decide)) (.cons .zero
        (.cons (.three (a := 0xED) (b := 0xA0) (c := 0xBD) (by decide) (by decide) rfl rfl)
          (.cons (.three (a := 0xED) (b := 0xB8) (c := 0x80) (by decide) (by decide) rfl rfl) .nil))),
      .plain rfl rfl (.plain rfl rfl (.pair rfl rfl .nil))⟩
  obtain ⟨t, -, text⟩ := (wellFormed _ _).mp written
  have reads : decode? bytes = some s := by decide +kernel
  have zero : decode? [0] = some "\x00" := by decide +kernel
  have start : p.Initial := .inr ⟨[0, 3, 1, 0, 9] ++ bytes ++ [1, 0, 1, 0], [], by decide +kernel⟩
  have old : ((internText s).run q).1 = .ok 1 := by decide +kernel
  have new : ((internText "\x00").run q).1 = .ok 4 := by decide +kernel
  have grown : q.size < ((internText "\x00").run q).2.size := by decide +kernel
  have added := interned p start _ "\x00" 4 _ (Prod.ext new rfl)
  have kept := interned p start _ s 1 _ (Prod.ext old rfl)
  have later : ((internText "\x00").run (((internText s).run q).2.after [])).1 = .ok 4 := by
    decide +kernel
  exact ⟨written, ⟨t, text⟩, start, old, kept.1.not.mpr fun lacks => lacks.1 1 _ _ rfl written reads,
    zero, new, fun us plain => (added.1.mp grown).1 2 us [0] rfl plain zero,
    (kept.2 [] "\x00" 4 _ (Prod.ext later rfl)).not.mp (by decide)⟩

end ModRemap.ConstantPool
