import Mathlib
import ModRemap.Proofs.RenamedSymbols

/-! A class file tells where it ends: the bytes that are accepted are neither accepted with a part of
the end cut off nor with anything behind them. -/

namespace ModRemap

namespace Reader

variable {α β : Type}

/-- `r` takes just what it needs: it reads the same whatever follows, and from less than it takes it
reads nothing. -/
def Delimits (r : Reader α) : Prop :=
  ∀ s a t, r s = .ok (a, t) →
    ∃ b, s = b ++ t ∧ Reads r b a ∧ ∀ n < b.length, r (b.take n) = .error .unexpectedEnd

theorem bind_of_error {r : Reader α} {s : Bytes} {e : ClassError} (h : r s = .error e)
    (f : α → Reader β) : (r >>= f) s = .error e := by
  have step : (r >>= f) s = (r s >>= fun p => f p.1 p.2) := rfl
  rw [step, h]
  rfl

theorem Reads.bind_eq {r : Reader α} {b : Bytes} {a : α} (h : Reads r b a) (f : α → Reader β)
    (s : Bytes) : (r >>= f) (b ++ s) = f a s := by
  have step : (r >>= f) (b ++ s) = (r (b ++ s) >>= fun p => f p.1 p.2) := rfl
  rw [step, h s]
  rfl

theorem Delimits.bind {r : Reader α} {f : α → Reader β} (hr : Delimits r)
    (hf : ∀ a, Delimits (f a)) : Delimits (r >>= f) := by
  intro s c t h
  obtain ⟨a, s', first, second⟩ := stateT_bind_eq_ok.mp h
  obtain ⟨b, rfl, reads, short⟩ := hr s a s' first
  obtain ⟨b', rfl, reads', short'⟩ := hf a s' c t second
  refine ⟨b ++ b', (List.append_assoc ..).symm, reads.bind reads', fun n cut => ?_⟩
  -- Either the first reader misses something already, or it is content and the second is not.
  rcases Nat.lt_or_ge n b.length with early | late
  · rw [List.take_append_of_le_length early.le]
    exact bind_of_error (short n early) f
  · obtain ⟨m, rfl⟩ := Nat.exists_eq_add_of_le late
    rw [List.take_length_add_append, reads.bind_eq]
    exact short' m (by rw [List.length_append] at cut; omega)

theorem delimits_pure (a : α) : Delimits (pure a) := by
  intro s b t h
  obtain ⟨rfl, rfl⟩ := Prod.mk.inj (Except.ok.inj h)
  exact ⟨[], rfl, reads_pure _, fun n cut => absurd cut (Nat.not_lt_zero n)⟩

theorem delimits_fail (e : ClassError) : Delimits (fail e : Reader α) := fun _ _ _ h => nomatch h

theorem Delimits.map {r : Reader α} (hr : Delimits r) (f : α → β) :
    Delimits (r >>= fun a => pure (f a)) :=
  hr.bind fun a => delimits_pure (f a)

theorem Delimits.ite {p : Prop} [Decidable p] {r r' : Reader α} (h : p → Delimits r)
    (h' : ¬p → Delimits r') : Delimits (if p then r else r') := by
  split_ifs with hp
  · exact h hp
  · exact h' hp

theorem delimits_u1 : Delimits u1 := by
  intro s n t h
  rcases s with _ | ⟨a, s⟩
  · exact nomatch h
  · obtain ⟨rfl, rfl⟩ := Prod.mk.inj (Except.ok.inj h)
    refine ⟨[a], rfl, reads_u1 a, fun n cut => ?_⟩
    rw [Nat.lt_one_iff.mp cut]
    rfl

theorem u2_of_short {s : Bytes} (short : s.length < 2) : u2 s = .error .unexpectedEnd := by
  rcases s with _ | ⟨a, _ | ⟨b, s⟩⟩
  · rfl
  · rfl
  · exact absurd short (by simp only [List.length_cons]; omega)

theorem u4_of_short {s : Bytes} (short : s.length < 4) : u4 s = .error .unexpectedEnd := by
  rcases s with _ | ⟨a, _ | ⟨b, _ | ⟨c, _ | ⟨d, s⟩⟩⟩⟩
  iterate 4 rfl
  exact absurd short (by simp only [List.length_cons]; omega)

theorem delimits_u2 : Delimits u2 := fun _ n _ h =>
  ⟨Bytes.ofU2 n, u2_eq_ok h, reads_u2 n, fun _ cut =>
    u2_of_short (lt_of_le_of_lt (List.length_take_le _ _) cut)⟩

theorem delimits_u4 : Delimits u4 := fun _ n _ h =>
  ⟨Bytes.ofU4 n, u4_eq_ok h, reads_u4 n, fun _ cut =>
    u4_of_short (lt_of_le_of_lt (List.length_take_le _ _) cut)⟩

theorem delimits_u8 : Delimits u8 := delimits_u4.bind fun _ => delimits_u4.map _

theorem delimits_take (n : ℕ) : Delimits (take n) := by
  intro s b t h
  obtain ⟨split, rfl⟩ := take_eq_ok h
  refine ⟨b, split, reads_take b, fun m cut => ?_⟩
  have short : ¬b.length ≤ (b.take m).length := by
    rw [List.length_take]
    omega
  rw [take, if_neg short]

theorem delimits_times {r : Reader α} (h : Delimits r) (n : ℕ) : Delimits (times r n) := by
  induction n with
  | zero => exact delimits_pure []
  | succ n ih => exact h.bind fun a => ih.map (a :: ·)

theorem delimits_counted {r : Reader α} (h : Delimits r) : Delimits (counted r) :=
  delimits_u2.bind fun n => delimits_times h n.toNat

end Reader

open Reader

theorem Constant.delimits_read : Delimits Constant.read := by
  refine delimits_u1.bind fun tag => ?_
  have text : Delimits (u2 >>= fun length => take length.toNat >>= fun b => pure (utf8 b)) :=
    delimits_u2.bind fun length => (delimits_take length.toNat).map utf8
  have two {β γ : Type} {r : Reader β} {r' : Reader γ} (hr : Delimits r) (hr' : Delimits r')
      (f : β → γ → Constant) : Delimits (r >>= fun x => r' >>= fun y => pure (f x y)) :=
    hr.bind fun x => hr'.map (f x)
  -- One case for each tag, as the reader tries them.
  refine .ite (fun _ => text) fun _ => ?_
  refine .ite (fun _ => delimits_u4.map integer) fun _ => ?_
  refine .ite (fun _ => delimits_u4.map float) fun _ => ?_
  refine .ite (fun _ => delimits_u8.map long) fun _ => ?_
  refine .ite (fun _ => delimits_u8.map double) fun _ => ?_
  refine .ite (fun _ => delimits_u2.map classRef) fun _ => ?_
  refine .ite (fun _ => delimits_u2.map string) fun _ => ?_
  refine .ite (fun _ => two delimits_u2 delimits_u2 (memberRef tag)) fun _ => ?_
  refine .ite (fun _ => two delimits_u2 delimits_u2 nameAndType) fun _ => ?_
  refine .ite (fun _ => two delimits_u1 delimits_u2 methodHandle) fun _ => ?_
  refine .ite (fun _ => delimits_u2.map methodType) fun _ => ?_
  refine .ite (fun _ => two delimits_u2 delimits_u2 (dynamic tag)) fun _ => ?_
  refine .ite (fun _ => delimits_u2.map moduleRef) fun _ => ?_
  exact .ite (fun _ => delimits_u2.map packageRef) fun _ => delimits_fail _

namespace ConstantPool

theorem delimits_readSlots (n : ℕ) (p : ConstantPool) : Delimits (p.readSlots n) := by
  -- A wide constant fills two slots, so the step is not always to the number before.
  induction n using Nat.strong_induction_on generalizing p with
  | _ n ih =>
    cases n with
    | zero => exact delimits_pure p
    | succ n =>
      rw [readSlots_succ]
      refine Constant.delimits_read.bind fun k => ih _ ?_ (p.appendRead k)
      have filled := k.slots_pos
      omega

theorem delimits_read : Delimits read :=
  delimits_u2.bind fun count => delimits_readSlots (count.toNat - 1) empty

end ConstantPool

theorem Attribute.delimits_read : Delimits Attribute.read :=
  delimits_u2.bind fun name => delimits_u4.bind fun length =>
    (delimits_take length.toNat).map (Attribute.mk name)

theorem Member.delimits_read : Delimits Member.read :=
  delimits_u2.bind fun access => delimits_u2.bind fun name => delimits_u2.bind fun descriptor =>
    (delimits_counted Attribute.delimits_read).map (Member.mk access name descriptor)

namespace ClassFile

theorem delimits_readFront : Delimits readFront := by
  refine delimits_u4.bind fun m => .ite (fun _ => (delimits_fail _).bind fun _ => ?_) fun _ => ?_
  all_goals exact delimits_u2.bind fun _ => delimits_u2.bind fun _ =>
    ConstantPool.delimits_read.bind fun _ => delimits_u2.bind fun _ => delimits_u2.bind fun _ =>
    delimits_u2.bind fun _ => (delimits_counted delimits_u2).map _

theorem delimits_readTables (c : ClassFile) : Delimits (readTables c) :=
  (delimits_counted Member.delimits_read).bind fun _ =>
    (delimits_counted Member.delimits_read).bind fun _ =>
    (delimits_counted Attribute.delimits_read).map _

/-- The bytes of a class, and of nothing else. -/
theorem delimits_of_parse {bytes : Bytes} {c : ClassFile} (parsed : parse bytes = .ok c) :
    (∀ n < bytes.length, parse (bytes.take n) = .error .unexpectedEnd) ∧
      ∀ more, more ≠ [] → parse (bytes ++ more) = .error (.trailingData more.length) := by
  have whole : Delimits (readFront >>= readTables) := delimits_readFront.bind delimits_readTables
  obtain ⟨b, all, reads, short⟩ := whole bytes c [] (parse_eq_ok.mp parsed)
  rw [List.append_nil] at all
  subst all
  constructor
  · intro n cut
    rw [parse, short n cut]
    rfl
  · intro more some
    have rest : more.isEmpty = false := List.isEmpty_eq_false_iff.mpr some
    rw [parse, reads more]
    show (if more.isEmpty then _ else _) = _
    rw [rest, if_neg Bool.false_ne_true]

/-- A header is that of the bytes up to the interfaces. -/
theorem delimits_of_parseHeader {bytes : Bytes} {header : ClassHeader}
    (parsed : parseHeader bytes = .ok header) :
    ∃ c front rest, readFront bytes = .ok (c, rest) ∧ bytes = front ++ rest ∧
      ∀ more, parseHeader (front ++ more) = .ok header := by
  obtain ⟨⟨c, rest⟩, read, named⟩ := except_bind_eq_ok.mp parsed
  obtain ⟨front, split, reads, _⟩ := delimits_readFront bytes c rest read
  exact ⟨c, front, rest, read, split, fun more => except_bind_eq_ok.mpr ⟨(c, more), reads more, named⟩⟩

/-- No accepted class file is a part of the front of another one, and both readers see one header in
it. The header alone can be read from less, and whatever follows. -/
theorem selfDelimiting (bytes : Bytes) :
    (∀ c, parse bytes = .ok c →
      (∀ n < bytes.length, parse (bytes.take n) = .error .unexpectedEnd) ∧
      (∀ more, more ≠ [] → parse (bytes ++ more) = .error (.trailingData more.length)) ∧
      parseHeader bytes = c.header) ∧
    ∀ header, parseHeader bytes = .ok header →
      (∀ more, parseHeader (bytes ++ more) = .ok header) ∧
      ∃ c front rest, readFront bytes = .ok (c, rest) ∧ bytes = front ++ rest ∧
        ∀ more, parseHeader (front ++ more) = .ok header := by
  constructor
  · intro c parsed
    obtain ⟨short, long⟩ := delimits_of_parse parsed
    exact ⟨short, long, parseHeader_of_parse parsed⟩
  · intro header parsed
    obtain ⟨c, front, rest, read, rfl, known⟩ := delimits_of_parseHeader parsed
    refine ⟨fun more => ?_, c, front, rest, read, rfl, known⟩
    rw [List.append_assoc]
    exact known (rest ++ more)

/-- A class with a field is cut inside its field, and has a byte behind it. -/
theorem selfDelimiting_field :
    let c := blank.edited do init "a" (some "b"); addInterface "i"; addField 1 "f" "I"
    let header : ClassHeader := ⟨"a", some "b", ["i"]⟩
    parse c.write = .ok c ∧ c.header = .ok header ∧ 55 < c.write.length ∧
      parse (c.write.take 55) = .error .unexpectedEnd ∧
      parse (c.write ++ [7]) = .error (.trailingData 1) ∧
      parseHeader c.write = .ok header ∧ parseHeader (c.write ++ [7]) = .ok header := by
  intro c header
  have parsed : parse c.write = .ok c := by decide +kernel
  have named : c.header = .ok header := by decide +kernel
  have long : 55 < c.write.length := by decide +kernel
  obtain ⟨accepted, headed⟩ := selfDelimiting c.write
  obtain ⟨short, behind, same⟩ := accepted c parsed
  have read : parseHeader c.write = .ok header := same.trans named
  exact ⟨parsed, named, long, short 55 long, behind [7] (List.cons_ne_nil _ _), read,
    (headed header read).1 [7]⟩

end ClassFile

end ModRemap
