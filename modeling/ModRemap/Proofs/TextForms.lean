import Mathlib
import ModRemap.Proofs.LossyText
import ModRemap.Proofs.ModifiedUtf8

/-! Which bytes a text is written in. A code unit has one form, and code units are a text exactly where
their surrogates come in pairs. -/

namespace ModRemap

namespace Utf16

/-- Every surrogate stands in a pair, the high one first. -/
inductive Paired : List UInt16 → Prop where
  | nil : Paired []
  | plain {u : UInt16} {us : List UInt16} (high : isHigh u = false) (low : isLow u = false)
      (rest : Paired us) : Paired (u :: us)
  | pair {u v : UInt16} {us : List UInt16} (high : isHigh u = true) (low : isLow v = true)
      (rest : Paired us) : Paired (u :: v :: us)

theorem isHigh_eq_true_iff {u : UInt16} : isHigh u = true ↔ 0xD800 ≤ u.toNat ∧ u.toNat < 0xDC00 := by
  have range := isHigh_ofNat u.toNat_lt
  rw [UInt16.ofNat_toNat] at range
  rw [range, decide_eq_true_eq]

theorem isLow_eq_true_iff {u : UInt16} : isLow u = true ↔ 0xDC00 ≤ u.toNat ∧ u.toNat < 0xE000 := by
  have range := isLow_ofNat u.toNat_lt
  rw [UInt16.ofNat_toNat] at range
  rw [range, decide_eq_true_eq]

theorem encodeChar_plain {u : UInt16} (high : isHigh u = false) (low : isLow u = false) :
    encodeChar (Char.ofNat u.toNat) = [u] := by
  have size : u.toNat < 0x10000 := u.toNat_lt
  have high' := isHigh_eq_true_iff.not.mp (ne_true_of_eq_false high)
  have low' := isLow_eq_true_iff.not.mp (ne_true_of_eq_false low)
  have number : (Char.ofNat u.toNat).toNat = u.toNat := Utf8.val_ofNat (by omega)
  rw [encodeChar, number, if_pos size, UInt16.ofNat_toNat]

theorem encodeChar_pair {u v : UInt16} (high : isHigh u = true) (low : isLow v = true) :
    encodeChar (Char.ofNat (0x10000 + (u.toNat - 0xD800) * 0x400 + (v.toNat - 0xDC00))) = [u, v] := by
  have high' := isHigh_eq_true_iff.mp high
  have low' := isLow_eq_true_iff.mp low
  have number : (Char.ofNat (0x10000 + (u.toNat - 0xD800) * 0x400 + (v.toNat - 0xDC00))).toNat =
      0x10000 + (u.toNat - 0xD800) * 0x400 + (v.toNat - 0xDC00) := Utf8.val_ofNat (by omega)
  have first : 0xD800 + (0x10000 + (u.toNat - 0xD800) * 0x400 + (v.toNat - 0xDC00) - 0x10000) / 0x400 =
      u.toNat := by omega
  have second : 0xDC00 + (0x10000 + (u.toNat - 0xD800) * 0x400 + (v.toNat - 0xDC00) - 0x10000) % 0x400 =
      v.toNat := by omega
  rw [encodeChar, number, if_neg (by omega), first, second, UInt16.ofNat_toNat, UInt16.ofNat_toNat]

/-- A character outside the surrogates stands alone, and one beyond the basic plane is a pair. -/
theorem Paired.encodeChar_append (c : Char) {us : List UInt16} (rest : Paired us) :
    Paired (encodeChar c ++ us) := by
  have valid : c.toNat < 0xD800 ∨ 0xDFFF < c.toNat ∧ c.toNat < 0x110000 := c.valid
  rw [encodeChar]
  split_ifs with plane
  · refine .plain ?_ ?_ rest
    · rw [isHigh_ofNat plane]
      exact decide_eq_false (by omega)
    · rw [isLow_ofNat plane]
      exact decide_eq_false (by omega)
  · refine .pair ?_ ?_ rest
    · rw [isHigh_ofNat (by omega)]
      exact decide_eq_true (by omega)
    · rw [isLow_ofNat (by omega)]
      exact decide_eq_true (by omega)

theorem paired_iff {us : List UInt16} : Paired us ↔ ∃ s, encode s = us := by
  constructor
  · intro h
    induction h with
    | nil => exact ⟨[], rfl⟩
    | @plain u us high low _ ih =>
      obtain ⟨s, rfl⟩ := ih
      exact ⟨Char.ofNat u.toNat :: s, by
        rw [encode, List.flatMap_cons, encodeChar_plain high low, List.singleton_append, ← encode]⟩
    | @pair u v us high low _ ih =>
      obtain ⟨s, rfl⟩ := ih
      exact ⟨Char.ofNat (0x10000 + (u.toNat - 0xD800) * 0x400 + (v.toNat - 0xDC00)) :: s, by
        rw [encode, List.flatMap_cons, encodeChar_pair high low, ← encode]
        rfl⟩
  · rintro ⟨s, rfl⟩
    induction s with
    | nil => exact .nil
    | cons c s ih =>
      rw [encode, List.flatMap_cons, ← encode]
      exact ih.encodeChar_append c

end Utf16

namespace ModifiedUtf8

/-- The shortest form of a code unit. Zero alone has a longer one, as no byte of a text is zero. -/
inductive Form : UInt16 → Bytes → Prop where
  | one {a : UInt8} (lead : 0x01 ≤ a.toNat ∧ a.toNat < 0x80) : Form (UInt16.ofNat a.toNat) [a]
  | zero : Form 0 [0xC0, 0x80]
  | two {a b : UInt8} (lead : 0xC2 ≤ a.toNat ∧ a.toNat < 0xE0) (second : Utf8.isTail b = true) :
      Form (UInt16.ofNat ((a.toNat - 0xC0) * 64 + (b.toNat - 0x80))) [a, b]
  | three {a b c : UInt8} (lead : 0xE0 ≤ a.toNat ∧ a.toNat < 0xF0)
      (least : a.toNat = 0xE0 → 0xA0 ≤ b.toNat) (second : Utf8.isTail b = true)
      (third : Utf8.isTail c = true) :
      Form (UInt16.ofNat (((a.toNat - 0xE0) * 64 + (b.toNat - 0x80)) * 64 + (c.toNat - 0x80)))
        [a, b, c]

/-- The bytes are the forms of the code units, one behind the other. -/
inductive Forms : List UInt16 → Bytes → Prop where
  | nil : Forms [] []
  | cons {u : UInt16} {us : List UInt16} {form bytes : Bytes} (first : Form u form)
      (rest : Forms us bytes) : Forms (u :: us) (form ++ bytes)

/-- Well-formed bytes, with the code units that they stand for. -/
structure Written (us : List UInt16) (bytes : Bytes) : Prop where
  forms : Forms us bytes
  paired : Utf16.Paired us

theorem Form.eq_encodeUnit {u : UInt16} {form : Bytes} (h : Form u form) : form = encodeUnit u := by
  cases h with
  | @one a lead =>
    have number : (UInt16.ofNat a.toNat).toNat = a.toNat :=
      UInt16.toNat_ofNat_of_lt' (show _ < 0x10000 by omega)
    rw [encodeUnit, number, if_pos (by omega), UInt8.ofNat_toNat]
  | zero => rfl
  | @two a b lead second =>
    have tail := Utf8.isTail_iff.mp second
    have number : (UInt16.ofNat ((a.toNat - 0xC0) * 64 + (b.toNat - 0x80))).toNat =
        (a.toNat - 0xC0) * 64 + (b.toNat - 0x80) :=
      UInt16.toNat_ofNat_of_lt' (show _ < 0x10000 by omega)
    rw [encodeUnit, number, if_neg (by omega), if_pos (by omega), Utf8.ofNat_eq (b := a) (by omega),
      Utf8.ofNat_eq (b := b) (by omega)]
  | @three a b c lead least second third =>
    have tail := Utf8.isTail_iff.mp second
    have tail' := Utf8.isTail_iff.mp third
    have number : (UInt16.ofNat
        (((a.toNat - 0xE0) * 64 + (b.toNat - 0x80)) * 64 + (c.toNat - 0x80))).toNat =
        ((a.toNat - 0xE0) * 64 + (b.toNat - 0x80)) * 64 + (c.toNat - 0x80) :=
      UInt16.toNat_ofNat_of_lt' (show _ < 0x10000 by omega)
    rw [encodeUnit, number, if_neg (by omega), if_neg (by omega), Utf8.ofNat_eq (b := a) (by omega),
      Utf8.ofNat_eq (b := b) (by omega), Utf8.ofNat_eq (b := c) (by omega)]

theorem form_encodeUnit (u : UInt16) : Form u (encodeUnit u) := by
  have size : u.toNat < 0x10000 := u.toNat_lt
  have back : UInt16.ofNat u.toNat = u := UInt16.ofNat_toNat
  rw [encodeUnit]
  split_ifs with one two
  · have lead := UInt8.toNat_ofNat_of_lt' (show u.toNat < 256 by omega)
    have form := Form.one (a := UInt8.ofNat u.toNat) (by omega)
    rwa [lead, back] at form
  · by_cases zero : u.toNat = 0
    · obtain rfl : u = 0 := UInt16.toNat_inj.mp zero
      exact .zero
    have lead := UInt8.toNat_ofNat_of_lt' (show 0xC0 + u.toNat / 64 < 256 by omega)
    have second := UInt8.toNat_ofNat_of_lt' (show 0x80 + u.toNat % 64 < 256 by omega)
    have form := Form.two (a := UInt8.ofNat (0xC0 + u.toNat / 64))
      (b := UInt8.ofNat (0x80 + u.toNat % 64)) (by omega) (Utf8.isTail_iff.mpr (by omega))
    rwa [lead, second, show (0xC0 + u.toNat / 64 - 0xC0) * 64 + (0x80 + u.toNat % 64 - 0x80) =
      u.toNat by omega, back] at form
  · have lead := UInt8.toNat_ofNat_of_lt' (show 0xE0 + u.toNat / 4096 < 256 by omega)
    have second := UInt8.toNat_ofNat_of_lt' (show 0x80 + u.toNat / 64 % 64 < 256 by omega)
    have third := UInt8.toNat_ofNat_of_lt' (show 0x80 + u.toNat % 64 < 256 by omega)
    have form := Form.three (a := UInt8.ofNat (0xE0 + u.toNat / 4096))
      (b := UInt8.ofNat (0x80 + u.toNat / 64 % 64)) (c := UInt8.ofNat (0x80 + u.toNat % 64))
      (by omega) (by omega) (Utf8.isTail_iff.mpr (by omega)) (Utf8.isTail_iff.mpr (by omega))
    rwa [lead, second, third, show ((0xE0 + u.toNat / 4096 - 0xE0) * 64 +
      (0x80 + u.toNat / 64 % 64 - 0x80)) * 64 + (0x80 + u.toNat % 64 - 0x80) = u.toNat by omega,
      back] at form

theorem forms_iff {us : List UInt16} {bytes : Bytes} :
    Forms us bytes ↔ us.flatMap encodeUnit = bytes := by
  constructor
  · intro h
    induction h with
    | nil => rfl
    | cons first _ ih => rw [List.flatMap_cons, ih, first.eq_encodeUnit]
  · rintro rfl
    induction us with
    | nil => exact .nil
    | cons u us ih => exact .cons (form_encodeUnit u) ih

theorem Form.bounds {u : UInt16} {form : Bytes} (h : Form u form) : ∀ b ∈ form, b ≠ 0 ∧ b < 0xF0 := by
  have within {b : UInt8} (range : 0 < b.toNat ∧ b.toNat < 0xF0) : b ≠ 0 ∧ b < 0xF0 :=
    ⟨fun zero => absurd range.1 (zero ▸ lt_irrefl 0), UInt8.lt_iff_toNat_lt.mpr range.2⟩
  have tail {b : UInt8} (h : Utf8.isTail b = true) : b ≠ 0 ∧ b < 0xF0 :=
    within (by have range := Utf8.isTail_iff.mp h; omega)
  intro b inside
  cases h with
  | one lead =>
    obtain rfl := List.mem_singleton.mp inside
    exact within (by omega)
  | zero =>
    rcases List.mem_pair.mp inside with rfl | rfl
    · decide
    · decide
  | two lead second =>
    rcases List.mem_pair.mp inside with rfl | rfl
    · exact within (by omega)
    · exact tail second
  | three lead least second third =>
    rcases List.mem_cons.mp inside with rfl | inside
    · exact within (by omega)
    · rcases List.mem_pair.mp inside with rfl | rfl
      · exact tail second
      · exact tail third

theorem Forms.bounds {us : List UInt16} {bytes : Bytes} (h : Forms us bytes) :
    ∀ b ∈ bytes, b ≠ 0 ∧ b < 0xF0 := by
  induction h with
  | nil => nofun
  | cons first _ ih => exact fun b inside => (List.mem_append.mp inside).elim (first.bounds b) (ih b)

/-- Well-formed bytes are those of the texts, and a text is read from its own. -/
theorem written_iff {us : List UInt16} {bytes : Bytes} :
    Written us bytes ↔
      ∃ s : String, Utf16.encode s.toList = us ∧ decode? bytes = some s ∧ encode s = bytes := by
  constructor
  · rintro ⟨forms, paired⟩
    obtain ⟨s, rfl⟩ := Utf16.paired_iff.mp paired
    have bytes' : encode (String.ofList s) = bytes := by
      rw [encode, String.toList_ofList]
      exact forms_iff.mp forms
    exact ⟨String.ofList s, by rw [String.toList_ofList], bytes' ▸ decode?_encode _, bytes'⟩
  · rintro ⟨s, rfl, -, rfl⟩
    exact ⟨forms_iff.mpr rfl, Utf16.paired_iff.mpr ⟨_, rfl⟩⟩

end ModifiedUtf8

end ModRemap
