import Mathlib
import ModRemap.ClassFile.ModifiedUtf8

/-! Modified UTF-8 loses nothing: every text is read back from its bytes. -/

namespace ModRemap

namespace Utf16

theorem decode?_cons {u : UInt16} (s : List UInt16) (high : isHigh u = false)
    (low : isLow u = false) :
    decode? (u :: s) = (decode? s).map (Char.ofNat u.toNat :: ·) := by
  cases s with
  | nil => simp [decode?, high, low]
  | cons v s => simp [decode?, high, low]

theorem decode?_pair {u v : UInt16} (s : List UInt16) (high : isHigh u = true)
    (low : isLow v = true) :
    decode? (u :: v :: s) = (decode? s).map
      (Char.ofNat (0x10000 + (u.toNat - 0xD800) * 0x400 + (v.toNat - 0xDC00)) :: ·) := by
  simp [decode?, high, low]

theorem isHigh_ofNat {n : ℕ} (h : n < 0x10000) :
    isHigh (UInt16.ofNat n) = decide (0xD800 ≤ n ∧ n < 0xDC00) := by
  have hn : (UInt16.ofNat n).toNat = n := UInt16.toNat_ofNat_of_lt h
  rw [isHigh, Bool.eq_iff_iff]
  simp only [Bool.and_eq_true, decide_eq_true_eq, UInt16.le_iff_toNat_le, UInt16.lt_iff_toNat_lt,
    hn, UInt16.reduceToNat]

theorem isLow_ofNat {n : ℕ} (h : n < 0x10000) :
    isLow (UInt16.ofNat n) = decide (0xDC00 ≤ n ∧ n < 0xE000) := by
  have hn : (UInt16.ofNat n).toNat = n := UInt16.toNat_ofNat_of_lt h
  rw [isLow, Bool.eq_iff_iff]
  simp only [Bool.and_eq_true, decide_eq_true_eq, UInt16.le_iff_toNat_le, UInt16.lt_iff_toNat_lt,
    hn, UInt16.reduceToNat]

theorem decode?_encodeChar (c : Char) (s : List UInt16) :
    decode? (encodeChar c ++ s) = (decode? s).map (c :: ·) := by
  have valid : c.toNat < 0xD800 ∨ 0xDFFF < c.toNat ∧ c.toNat < 0x110000 := c.valid
  by_cases plane : c.toNat < 0x10000
  · have number : (UInt16.ofNat c.toNat).toNat = c.toNat := UInt16.toNat_ofNat_of_lt plane
    rw [encodeChar, if_pos plane, List.cons_append, List.nil_append, decode?_cons, number,
      Char.ofNat_toNat]
    · rw [isHigh_ofNat plane]
      exact decide_eq_false (by omega)
    · rw [isLow_ofNat plane]
      exact decide_eq_false (by omega)
  · have first : 0xD800 + (c.toNat - 0x10000) / 0x400 < 0x10000 := by omega
    have second : 0xDC00 + (c.toNat - 0x10000) % 0x400 < 0x10000 := by omega
    have high : (UInt16.ofNat (0xD800 + (c.toNat - 0x10000) / 0x400)).toNat =
        0xD800 + (c.toNat - 0x10000) / 0x400 := UInt16.toNat_ofNat_of_lt first
    have low : (UInt16.ofNat (0xDC00 + (c.toNat - 0x10000) % 0x400)).toNat =
        0xDC00 + (c.toNat - 0x10000) % 0x400 := UInt16.toNat_ofNat_of_lt second
    rw [encodeChar, if_neg plane, List.cons_append, List.cons_append, List.nil_append, decode?_pair,
      high, low]
    · rw [show 0x10000 + (0xD800 + (c.toNat - 0x10000) / 0x400 - 0xD800) * 0x400 +
        (0xDC00 + (c.toNat - 0x10000) % 0x400 - 0xDC00) = c.toNat by omega, Char.ofNat_toNat]
    · rw [isHigh_ofNat first]
      exact decide_eq_true (by omega)
    · rw [isLow_ofNat second]
      exact decide_eq_true (by omega)

theorem decode?_encode (s : List Char) : decode? (encode s) = some s := by
  induction s with
  | nil => rfl
  | cons c s ih => rw [encode, List.flatMap_cons, decode?_encodeChar, ← encode, ih]; rfl

theorem length_decode?_le (us : List UInt16) {cs : List Char}
    (h : decode? us = some cs) : cs.length ≤ us.length := by
  induction us using decode?.induct generalizing cs with
  | case1 =>
    obtain rfl := Option.some.inj h
    exact le_rfl
  | case2 u surrogate =>
    rw [decode?, if_pos surrogate] at h
    exact nomatch h
  | case3 u plain =>
    rw [decode?, if_neg plain] at h
    obtain rfl := Option.some.inj h
    exact le_rfl
  | case4 u v s high low ih =>
    rw [decode?_pair s high low] at h
    obtain ⟨ds, rest, rfl⟩ := Option.map_eq_some_iff.mp h
    exact Nat.succ_le_succ ((ih rest).trans (Nat.le_succ _))
  | case5 u v s high low =>
    rw [decode?, if_pos high, if_neg low] at h
    exact nomatch h
  | case6 u v s high low =>
    rw [decode?, if_neg high, if_pos low] at h
    exact nomatch h
  | case7 u v s high low ih =>
    rw [decode?, if_neg high, if_neg low] at h
    obtain ⟨ds, rest, rfl⟩ := Option.map_eq_some_iff.mp h
    exact Nat.succ_le_succ (ih rest)

end Utf16

namespace ModifiedUtf8

theorem extra?_ofNat {n : ℕ} (h : n < 0x100) :
    extra? (UInt8.ofNat n) =
      if n < 0x80 then some 0 else if n < 0xC0 then none else if n < 0xE0 then some 1
      else if n < 0xF0 then some 2 else none := by
  have hn : (UInt8.ofNat n).toNat = n := UInt8.toNat_ofNat_of_lt h
  simp only [extra?, UInt8.lt_iff_toNat_lt, hn, UInt8.reduceToNat]

theorem units?_one {a : UInt8} (s : Bytes) (h : extra? a = some 0) :
    units? (a :: s) = (units? s).map (UInt16.ofNat a.toNat :: ·) := by
  rw [units?.eq_def]
  simp only [h]

theorem units?_two {a b : UInt8} (s : Bytes) (h : extra? a = some 1) :
    units? (a :: b :: s) =
      (units? s).map (UInt16.ofNat (a.toNat % 32 * 64 + low b) :: ·) := by
  rw [units?.eq_def]
  simp only [h]

theorem units?_three {a b c : UInt8} (s : Bytes) (h : extra? a = some 2) :
    units? (a :: b :: c :: s) =
      (units? s).map (UInt16.ofNat ((a.toNat % 16 * 64 + low b) * 64 + low c) :: ·) := by
  rw [units?.eq_def]
  simp only [h]

theorem low_ofNat {n : ℕ} (h : n < 0x100) : low (UInt8.ofNat n) = n % 64 := by
  have hn : (UInt8.ofNat n).toNat = n := UInt8.toNat_ofNat_of_lt h
  rw [low, hn]

/-- The first byte tells the length, and each length has its own range of code units. -/
theorem units?_encodeUnit (u : UInt16) (s : Bytes) :
    units? (encodeUnit u ++ s) = (units? s).map (u :: ·) := by
  have size : u.toNat < 0x10000 := u.toNat_lt
  have back : UInt16.ofNat u.toNat = u := UInt16.ofNat_toNat
  rw [encodeUnit]
  split_ifs with one two
  · have bound : u.toNat < 0x100 := by omega
    have lead : (UInt8.ofNat u.toNat).toNat = u.toNat := UInt8.toNat_ofNat_of_lt bound
    rw [List.cons_append, List.nil_append, units?_one, lead, back]
    rw [extra?_ofNat bound, if_pos (by omega)]
  · have bound : 0xC0 + u.toNat / 64 < 0x100 := by omega
    have lead : (UInt8.ofNat (0xC0 + u.toNat / 64)).toNat = 0xC0 + u.toNat / 64 :=
      UInt8.toNat_ofNat_of_lt bound
    rw [List.cons_append, List.cons_append, List.nil_append, units?_two, lead,
      low_ofNat (by omega), show (0xC0 + u.toNat / 64) % 32 * 64 + (0x80 + u.toNat % 64) % 64 =
        u.toNat by omega, back]
    rw [extra?_ofNat bound, if_neg (by omega), if_neg (by omega), if_pos (by omega)]
  · have bound : 0xE0 + u.toNat / 4096 < 0x100 := by omega
    have lead : (UInt8.ofNat (0xE0 + u.toNat / 4096)).toNat = 0xE0 + u.toNat / 4096 :=
      UInt8.toNat_ofNat_of_lt bound
    rw [List.cons_append, List.cons_append, List.cons_append, List.nil_append, units?_three, lead,
      low_ofNat (by omega), low_ofNat (by omega),
      show ((0xE0 + u.toNat / 4096) % 16 * 64 + (0x80 + u.toNat / 64 % 64) % 64) * 64 +
        (0x80 + u.toNat % 64) % 64 = u.toNat by omega, back]
    rw [extra?_ofNat bound, if_neg (by omega), if_neg (by omega), if_neg (by omega),
      if_pos (by omega)]

theorem units?_flatMap_encodeUnit (us : List UInt16) : units? (us.flatMap encodeUnit) = some us := by
  induction us with
  | nil => rfl
  | cons u us ih => rw [List.flatMap_cons, units?_encodeUnit, ih]; rfl

theorem decode?_encode (s : String) : decode? (encode s) = some s := by
  rw [decode?, encode, units?_flatMap_encodeUnit, Option.bind_some, Utf16.decode?_encode,
    Option.map_some, String.ofList_toList]

theorem encode_injective : Function.Injective encode := fun s t same => by
  have back := decode?_encode s
  rw [same, decode?_encode] at back
  exact (Option.some.inj back).symm

theorem length_units?_le (bytes : Bytes) {us : List UInt16}
    (h : units? bytes = some us) : us.length ≤ bytes.length := by
  induction bytes using units?.induct generalizing us with
  | case1 =>
    obtain rfl := Option.some.inj h
    exact le_rfl
  | case2 a s lead ih =>
    rw [units?_one s lead] at h
    obtain ⟨vs, rest, rfl⟩ := Option.map_eq_some_iff.mp h
    exact Nat.succ_le_succ (ih rest)
  | case3 a b s lead ih =>
    rw [units?_two s lead] at h
    obtain ⟨vs, rest, rfl⟩ := Option.map_eq_some_iff.mp h
    exact Nat.succ_le_succ ((ih rest).trans (Nat.le_succ _))
  | case4 a b c s lead ih =>
    rw [units?_three s lead] at h
    obtain ⟨vs, rest, rfl⟩ := Option.map_eq_some_iff.mp h
    exact Nat.succ_le_succ ((ih rest).trans (Nat.le_add_right _ 2))
  | case5 a s one two three =>
    rw [units?.eq_5 a s one two three] at h
    exact nomatch h

end ModifiedUtf8

end ModRemap
