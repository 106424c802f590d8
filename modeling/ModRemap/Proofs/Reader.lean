import Mathlib
import ModRemap.ClassFile.Reader

/-! Reading undoes writing for words, byte strings and counted lists, whatever follows them. -/

namespace ModRemap

theorem except_bind_eq_ok {ε α β : Type} {x : Except ε α} {f : α → Except ε β} {b : β} :
    (x >>= f) = .ok b ↔ ∃ a, x = .ok a ∧ f a = .ok b := by
  cases x with
  | error e => exact ⟨fun h => (nomatch h), fun ⟨_, h, _⟩ => (nomatch h)⟩
  | ok a => exact ⟨fun h => ⟨a, rfl, h⟩, fun ⟨_, ha, h⟩ => Except.ok.inj ha ▸ h⟩

theorem stateT_bind_eq_ok {σ ε α β : Type} {x : StateT σ (Except ε) α}
    {f : α → StateT σ (Except ε) β} {s t : σ} {b : β} :
    (x >>= f) s = .ok (b, t) ↔ ∃ a s', x s = .ok (a, s') ∧ f a s' = .ok (b, t) := by
  have step : (x >>= f) s = (x s >>= fun p => f p.1 p.2) := rfl
  rw [step, except_bind_eq_ok]
  exact ⟨fun ⟨p, hx, hf⟩ => ⟨p.1, p.2, hx, hf⟩, fun ⟨a, s', hx, hf⟩ => ⟨(a, s'), hx, hf⟩⟩

/-- A choice of the first step. -/
theorem stateT_ite_bind_eq_ok {σ ε α β : Type} {p : Prop} [Decidable p]
    {x y : StateT σ (Except ε) α} {f : α → StateT σ (Except ε) β} {s t : σ} {b : β} :
    (if p then x >>= f else y >>= f) s = .ok (b, t) ↔
      ∃ a s', (if p then x else y) s = .ok (a, s') ∧ f a s' = .ok (b, t) := by
  split_ifs
  · exact stateT_bind_eq_ok
  · exact stateT_bind_eq_ok

theorem except_ite_bind_eq_ok {ε α β : Type} {p : Prop} [Decidable p]
    {x y : Except ε α} {f : α → Except ε β} {b : β} :
    (if p then x >>= f else y >>= f) = .ok b ↔
      ∃ a, (if p then x else y) = .ok a ∧ f a = .ok b := by
  split_ifs
  · exact except_bind_eq_ok
  · exact except_bind_eq_ok

theorem except_mapError_eq_ok {ε ε' α : Type} {f : ε → ε'} {x : Except ε α} {a : α} :
    x.mapError f = .ok a ↔ x = .ok a := by
  cases x with
  | error e => exact ⟨nofun, nofun⟩
  | ok b => exact ⟨fun h => congrArg Except.ok (Except.ok.inj h), fun h => h ▸ rfl⟩

theorem exists_of_mem_right {α β : Type} {R : α → β → Prop} {as : List α} {bs : List β}
    (h : List.Forall₂ R as bs) {b : β} (hb : b ∈ bs) : ∃ a ∈ as, R a b := by
  induction h with
  | nil => exact nomatch hb
  | cons first _ ih =>
    rcases List.mem_cons.mp hb with rfl | hb
    · exact ⟨_, List.mem_cons_self, first⟩
    · obtain ⟨a, ha, related⟩ := ih hb
      exact ⟨a, List.mem_cons_of_mem _ ha, related⟩

theorem exists_of_mem_left {α β : Type} {R : α → β → Prop} {as : List α} {bs : List β}
    (h : List.Forall₂ R as bs) {a : α} (ha : a ∈ as) : ∃ b ∈ bs, R a b :=
  exists_of_mem_right (R := flip R) h.flip ha

namespace Reader

variable {α β : Type}

/-- `r` reads `a` from the bytes `b`, whatever follows them. -/
def Reads (r : Reader α) (b : Bytes) (a : α) : Prop := ∀ s, r (b ++ s) = .ok (a, s)

/-- Whatever `r` reads has the property `P`. -/
def Yields (r : Reader α) (P : α → Prop) : Prop := ∀ s a t, r s = .ok (a, t) → P a

theorem reads_pure (a : α) : Reads (pure a) [] a := fun _ => rfl

theorem Reads.bind {r : Reader α} {f : α → Reader β} {b₁ b₂ : Bytes} {a : α} {b : β}
    (hr : Reads r b₁ a) (hf : Reads (f a) b₂ b) : Reads (r >>= f) (b₁ ++ b₂) b := by
  intro s
  rw [List.append_assoc]
  exact stateT_bind_eq_ok.mpr ⟨a, b₂ ++ s, hr _, hf s⟩

/-- The last step of a reader takes the last bytes. -/
theorem Reads.map {r : Reader α} {f : α → β} {b : Bytes} {a : α} (hr : Reads r b a) :
    Reads (r >>= fun a => pure (f a)) b (f a) := by
  simpa only [List.append_nil] using Reads.bind (f := fun a => pure (f a)) hr (reads_pure (f a))

theorem reads_u1 (n : UInt8) : Reads u1 [n] n := fun _ => rfl

theorem word_ofU2 (n : UInt16) : word (UInt8.ofNat (n.toNat / 0x100)) (UInt8.ofNat n.toNat) = n := by
  have hn : n.toNat < 0x10000 := n.toNat_lt
  have high : (UInt8.ofNat (n.toNat / 0x100)).toNat = n.toNat / 0x100 :=
    UInt8.toNat_ofNat_of_lt (show n.toNat / 0x100 < 0x100 by omega)
  have low : (UInt8.ofNat n.toNat).toNat = n.toNat % 0x100 := UInt8.toNat_ofNat'
  rw [word, high, low, show n.toNat / 0x100 * 0x100 + n.toNat % 0x100 = n.toNat by omega,
    UInt16.ofNat_toNat]

theorem reads_u2 (n : UInt16) : Reads u2 (Bytes.ofU2 n) n := by
  intro s
  rw [Bytes.ofU2, List.cons_append, List.cons_append, List.nil_append, u2, word_ofU2]

theorem reads_u4 (n : UInt32) : Reads u4 (Bytes.ofU4 n) n := by
  intro s
  have hn : n.toNat < 0x100000000 := n.toNat_lt
  have high : (UInt16.ofNat (n.toNat / 0x10000)).toNat = n.toNat / 0x10000 :=
    UInt16.toNat_ofNat_of_lt (show n.toNat / 0x10000 < 0x10000 by omega)
  have low : (UInt16.ofNat n.toNat).toNat = n.toNat % 0x10000 := UInt16.toNat_ofNat'
  simp only [Bytes.ofU4, Bytes.ofU2, List.cons_append, List.nil_append, u4, word_ofU2]
  rw [high, low, show n.toNat / 0x10000 * 0x10000 + n.toNat % 0x10000 = n.toNat by omega,
    UInt32.ofNat_toNat]

theorem reads_u8 (n : UInt64) : Reads u8 (Bytes.ofU8 n) n := by
  have hn : n.toNat < 0x10000000000000000 := n.toNat_lt
  have high : (UInt32.ofNat (n.toNat / 0x100000000)).toNat = n.toNat / 0x100000000 :=
    UInt32.toNat_ofNat_of_lt (show n.toNat / 0x100000000 < 0x100000000 by omega)
  have low : (UInt32.ofNat n.toNat).toNat = n.toNat % 0x100000000 := UInt32.toNat_ofNat'
  have back : UInt64.ofNat ((UInt32.ofNat (n.toNat / 0x100000000)).toNat * 0x100000000 +
      (UInt32.ofNat n.toNat).toNat) = n := by
    rw [high, low, show n.toNat / 0x100000000 * 0x100000000 + n.toNat % 0x100000000 = n.toNat by
      omega, UInt64.ofNat_toNat]
  have both : Reads u8 (Bytes.ofU8 n) (UInt64.ofNat
      ((UInt32.ofNat (n.toNat / 0x100000000)).toNat * 0x100000000 +
        (UInt32.ofNat n.toNat).toNat)) :=
    Reads.bind (reads_u4 _) (Reads.map (reads_u4 _))
  rwa [back] at both

theorem reads_take (b : Bytes) : Reads (take b.length) b b := by
  intro s
  rw [take, if_pos (by rw [List.length_append]; omega), List.take_left, List.drop_left]

theorem reads_times {r : Reader α} {w : α → Bytes} {as : List α}
    (h : ∀ a ∈ as, Reads r (w a) a) : Reads (times r as.length) (as.flatMap w) as := by
  induction as with
  | nil => exact reads_pure []
  | cons a as ih =>
    rw [List.flatMap_cons]
    exact (h a List.mem_cons_self).bind ((ih fun b hb => h b (List.mem_cons_of_mem a hb)).map)

theorem reads_counted {r : Reader α} {w : α → Bytes} {as : List α} (size : as.length < 0x10000)
    (h : ∀ a ∈ as, Reads r (w a) a) : Reads (counted r) (Bytes.ofCounted w as) as := by
  have count : (UInt16.ofNat as.length).toNat = as.length := UInt16.toNat_ofNat_of_lt size
  have items := reads_times h
  rw [← count] at items
  exact (reads_u2 _).bind items

theorem Yields.bind {r : Reader α} {f : α → Reader β} {P : α → Prop} {Q : β → Prop}
    (hr : Yields r P) (hf : ∀ a, P a → Yields (f a) Q) : Yields (r >>= f) Q := by
  intro s b t h
  obtain ⟨a, s', ha, hb⟩ := stateT_bind_eq_ok.mp h
  exact hf a (hr s a s' ha) s' b t hb

theorem yields_pure {a : α} {P : α → Prop} (h : P a) : Yields (pure a) P := by
  intro s b t hb
  obtain ⟨rfl, _⟩ := Prod.mk.inj (Except.ok.inj hb)
  exact h

theorem yields_true (r : Reader α) : Yields r fun _ => True := fun _ _ _ _ => trivial

theorem yields_fail (e : ClassError) (P : α → Prop) : Yields (fail e) P := fun _ _ _ h => nomatch h

theorem Yields.ite {p : Prop} [Decidable p] {r r' : Reader α} {P : α → Prop}
    (h : p → Yields r P) (h' : ¬p → Yields r' P) : Yields (if p then r else r') P := by
  split_ifs with hp
  · exact h hp
  · exact h' hp

theorem yields_take (n : ℕ) : Yields (take n) fun b => b.length = n := by
  intro s b t h
  rw [take] at h
  split_ifs at h with room
  obtain ⟨rfl, _⟩ := Prod.mk.inj (Except.ok.inj h)
  exact List.length_take_of_le room

theorem yields_times {r : Reader α} {P : α → Prop} (h : Yields r P) (n : ℕ) :
    Yields (times r n) fun as => as.length = n ∧ ∀ a ∈ as, P a := by
  induction n with
  | zero => exact yields_pure ⟨rfl, fun _ h => (nomatch h)⟩
  | succ n ih =>
    refine h.bind fun a ha => ih.bind fun as has => yields_pure ⟨by rw [List.length_cons, has.1], ?_⟩
    intro b hb
    rcases List.mem_cons.mp hb with rfl | hb
    · exact ha
    · exact has.2 b hb

theorem yields_counted {r : Reader α} {P : α → Prop} (h : Yields r P) :
    Yields (counted r) fun as => as.length < 0x10000 ∧ ∀ a ∈ as, P a := by
  refine (yields_true u2).bind fun n _ => ?_
  intro s as t has
  obtain ⟨size, all⟩ := yields_times h n.toNat s as t has
  exact ⟨size ▸ n.toNat_lt, all⟩

/-! What was read is what writing would put there. -/

theorem ofU2_word (a b : UInt8) : Bytes.ofU2 (word a b) = [a, b] := by
  have ha : a.toNat < 0x100 := a.toNat_lt
  have hb : b.toNat < 0x100 := b.toNat_lt
  have value : (word a b).toNat = a.toNat * 0x100 + b.toNat :=
    UInt16.toNat_ofNat_of_lt (show a.toNat * 0x100 + b.toNat < 0x10000 by omega)
  have high : UInt8.ofNat ((word a b).toNat / 0x100) = a := by
    rw [value, show (a.toNat * 0x100 + b.toNat) / 0x100 = a.toNat by omega, UInt8.ofNat_toNat]
  have low : UInt8.ofNat (word a b).toNat = b := by
    apply UInt8.toNat_inj.mp
    rw [UInt8.toNat_ofNat', value]
    omega
  rw [Bytes.ofU2, high, low]

theorem u2_eq_ok {s t : Bytes} {n : UInt16} (h : u2 s = .ok (n, t)) : s = Bytes.ofU2 n ++ t := by
  rcases s with _ | ⟨a, _ | ⟨b, s⟩⟩
  · exact nomatch h
  · exact nomatch h
  · obtain ⟨rfl, rfl⟩ := Prod.mk.inj (Except.ok.inj h)
    rw [ofU2_word]
    rfl

theorem u4_eq_ok {s t : Bytes} {n : UInt32} (h : u4 s = .ok (n, t)) : s = Bytes.ofU4 n ++ t := by
  rcases s with _ | ⟨a, _ | ⟨b, _ | ⟨c, _ | ⟨d, s⟩⟩⟩⟩
  iterate 4 exact nomatch h
  obtain ⟨rfl, rfl⟩ := Prod.mk.inj (Except.ok.inj h)
  have hx : (word a b).toNat < 0x10000 := (word a b).toNat_lt
  have hy : (word c d).toNat < 0x10000 := (word c d).toNat_lt
  have value : (UInt32.ofNat ((word a b).toNat * 0x10000 + (word c d).toNat)).toNat =
      (word a b).toNat * 0x10000 + (word c d).toNat := UInt32.toNat_ofNat_of_lt
    (show (word a b).toNat * 0x10000 + (word c d).toNat < 0x100000000 by omega)
  have high : ((word a b).toNat * 0x10000 + (word c d).toNat) / 0x10000 = (word a b).toNat := by
    omega
  have low : UInt16.ofNat ((word a b).toNat * 0x10000 + (word c d).toNat) = word c d := by
    apply UInt16.toNat_inj.mp
    rw [UInt16.toNat_ofNat']
    omega
  rw [Bytes.ofU4, value, high, low, UInt16.ofNat_toNat, ofU2_word, ofU2_word]
  rfl

theorem take_eq_ok {n : ℕ} {s b t : Bytes} (h : take n s = .ok (b, t)) :
    s = b ++ t ∧ b.length = n := by
  rw [take] at h
  split_ifs at h with room
  obtain ⟨rfl, rfl⟩ := Prod.mk.inj (Except.ok.inj h)
  exact ⟨(List.take_append_drop n s).symm, List.length_take_of_le room⟩

/-- `r` leaves the end of what it reads from. -/
def Takes (r : Reader α) : Prop := ∀ s a t, r s = .ok (a, t) → ∃ b, s = b ++ t

theorem Takes.bind {r : Reader α} {f : α → Reader β} (hr : Takes r) (hf : ∀ a, Takes (f a)) :
    Takes (r >>= f) := by
  intro s b t h
  obtain ⟨a, s', ha, hb⟩ := stateT_bind_eq_ok.mp h
  obtain ⟨b₁, rfl⟩ := hr s a s' ha
  obtain ⟨b₂, rfl⟩ := hf a s' b t hb
  exact ⟨b₁ ++ b₂, (List.append_assoc ..).symm⟩

theorem takes_pure (a : α) : Takes (pure a) := by
  intro s b t h
  obtain ⟨_, rfl⟩ := Prod.mk.inj (Except.ok.inj h)
  exact ⟨[], rfl⟩

theorem takes_u2 : Takes u2 := fun _ n _ h => ⟨Bytes.ofU2 n, u2_eq_ok h⟩

theorem takes_u4 : Takes u4 := fun _ n _ h => ⟨Bytes.ofU4 n, u4_eq_ok h⟩

theorem takes_take (n : ℕ) : Takes (take n) := fun _ b _ h => ⟨b, (take_eq_ok h).1⟩

theorem raw_eq_ok {r : Reader α} (takes : Takes r) {s b t : Bytes} {a : α}
    (h : raw r s = .ok ((b, a), t)) : s = b ++ t ∧ r s = .ok (a, t) := by
  obtain ⟨⟨a', t'⟩, read, h⟩ := except_bind_eq_ok.mp h
  obtain ⟨front, rfl⟩ := Prod.mk.inj (Except.ok.inj h)
  obtain ⟨rfl, rfl⟩ := Prod.mk.inj front
  obtain ⟨used, rfl⟩ := takes s a' t' read
  refine ⟨?_, read⟩
  rw [List.length_append, Nat.add_sub_cancel, List.take_left]

end Reader

end ModRemap
