import Mathlib
import ModRemap.Text.Utf8

/-! Text that was written as UTF-8 is read back, whatever characters it has. -/

namespace ModRemap.Utf8

theorem encode_append (s t : List Char) : encode (s ++ t) = encode s ++ encode t :=
  List.flatMap_append

theorem encode_cons (c : Char) (s : List Char) :
    encode (c :: s) = String.utf8EncodeChar c ++ encode s :=
  List.flatMap_cons

theorem utf8EncodeChar_of_ascii {c : Char} (ascii : c.toNat < 0x80) :
    String.utf8EncodeChar c = [UInt8.ofNat c.toNat] := by
  have small : c.val.toNat ≤ 0x7F := Nat.le_of_lt_succ ascii
  rw [String.utf8EncodeChar, if_pos small]
  rfl

/-- Only ASCII characters have bytes below 128. -/
theorem le_of_mem_utf8EncodeChar {c : Char} {b : UInt8} (large : 0x80 ≤ c.toNat)
    (inside : b ∈ String.utf8EncodeChar c) : 0x80 ≤ b := by
  have valid : c.val.toNat < 0x110000 := by
    rcases c.valid with low | high
    · exact low.trans (by decide)
    · exact high.2
  have long : ¬c.val.toNat ≤ 0x7F := Nat.not_le.mpr large
  rw [UInt8.le_iff_toNat_le]
  rw [String.utf8EncodeChar, if_neg long] at inside
  split_ifs at inside
  all_goals
    simp only [List.mem_cons, List.not_mem_nil, or_false] at inside
    rcases inside with rfl | rfl | rfl | rfl
  all_goals
    simp
    omega

/-! The first character of a text, by the number of its bytes. -/

variable {n : ℕ} (s : Bytes)

theorem first_one (small : n < 0x80) : first (UInt8.ofNat n) s = .char (Char.ofNat n) s := by
  have lead := UInt8.toNat_ofNat_of_lt' (show n < 256 by omega)
  have ascii : UInt8.ofNat n < 0x80 := UInt8.lt_iff_toNat_lt.mpr (lead.trans_lt small)
  rw [first, if_pos ascii, lead]

theorem first_two (large : 0x80 ≤ n) (small : n < 0x800) :
    first (UInt8.ofNat (n / 64 % 32 + 192)) (UInt8.ofNat (n % 64 + 128) :: s) =
      .char (Char.ofNat n) s := by
  have lead := UInt8.toNat_ofNat_of_lt' (show n / 64 % 32 + 192 < 256 by omega)
  have second := UInt8.toNat_ofNat_of_lt' (show n % 64 + 128 < 256 by omega)
  have range : secondRange (UInt8.ofNat (n / 64 % 32 + 192)) = some (0x80, 0xBF) := by
    simp only [secondRange, UInt8.le_iff_toNat_le, lead, Bool.and_eq_true, decide_eq_true_eq]
    exact if_pos ⟨by simp; omega, by simp; omega⟩
  simp only [first, range, low, UInt8.lt_iff_toNat_lt, UInt8.le_iff_toNat_le, lead, second,
    Bool.and_eq_true, decide_eq_true_eq]
  rw [if_neg (by simp), if_pos (by simp; omega), if_pos (by simp; omega)]
  congr 2
  omega

theorem first_three (large : 0x800 ≤ n) (small : n < 0x10000) (valid : n < 0xD800 ∨ 0xDFFF < n) :
    first (UInt8.ofNat (n / 4096 % 16 + 224))
        (UInt8.ofNat (n / 64 % 64 + 128) :: UInt8.ofNat (n % 64 + 128) :: s) =
      .char (Char.ofNat n) s := by
  have lead := UInt8.toNat_ofNat_of_lt' (show n / 4096 % 16 + 224 < 256 by omega)
  have second := UInt8.toNat_ofNat_of_lt' (show n / 64 % 64 + 128 < 256 by omega)
  have third := UInt8.toNat_ofNat_of_lt' (show n % 64 + 128 < 256 by omega)
  -- The least and the greatest lead byte narrow the second one: these numbers have shorter forms, or
  -- are no characters.
  obtain ⟨lo, hi, range, above, below⟩ : ∃ lo hi,
      secondRange (UInt8.ofNat (n / 4096 % 16 + 224)) = some (lo, hi) ∧
        lo.toNat ≤ n / 64 % 64 + 128 ∧ n / 64 % 64 + 128 ≤ hi.toNat := by
    simp only [secondRange, UInt8.le_iff_toNat_le, ← UInt8.toNat_inj, lead, Bool.and_eq_true,
      decide_eq_true_eq]
    split_ifs <;> simp at * <;> omega
  simp only [first, range, isTail, low, UInt8.lt_iff_toNat_lt, UInt8.le_iff_toNat_le, lead, second,
    third, above, below, Bool.and_eq_true, decide_eq_true_eq]
  rw [if_neg (by simp), if_pos ⟨trivial, trivial⟩, if_neg (by simp), if_pos (by simp; omega),
    if_pos (by simp; omega)]
  congr 2
  omega

theorem first_four (large : 0x10000 ≤ n) (small : n < 0x110000) :
    first (UInt8.ofNat (n / 262144 % 8 + 240)) (UInt8.ofNat (n / 4096 % 64 + 128) ::
        UInt8.ofNat (n / 64 % 64 + 128) :: UInt8.ofNat (n % 64 + 128) :: s) =
      .char (Char.ofNat n) s := by
  have lead := UInt8.toNat_ofNat_of_lt' (show n / 262144 % 8 + 240 < 256 by omega)
  have second := UInt8.toNat_ofNat_of_lt' (show n / 4096 % 64 + 128 < 256 by omega)
  have third := UInt8.toNat_ofNat_of_lt' (show n / 64 % 64 + 128 < 256 by omega)
  have fourth := UInt8.toNat_ofNat_of_lt' (show n % 64 + 128 < 256 by omega)
  obtain ⟨lo, hi, range, above, below⟩ : ∃ lo hi,
      secondRange (UInt8.ofNat (n / 262144 % 8 + 240)) = some (lo, hi) ∧
        lo.toNat ≤ n / 4096 % 64 + 128 ∧ n / 4096 % 64 + 128 ≤ hi.toNat := by
    simp only [secondRange, UInt8.le_iff_toNat_le, ← UInt8.toNat_inj, lead, Bool.and_eq_true,
      decide_eq_true_eq]
    split_ifs <;> simp at * <;> omega
  simp only [first, range, isTail, low, UInt8.lt_iff_toNat_lt, UInt8.le_iff_toNat_le, lead, second,
    third, fourth, above, below, Bool.and_eq_true, decide_eq_true_eq]
  rw [if_neg (by simp), if_pos ⟨trivial, trivial⟩, if_neg (by simp), if_pos (by simp; omega),
    if_neg (by simp), if_pos (by simp; omega)]
  congr 2
  omega

theorem first_utf8EncodeChar (c : Char) :
    ∃ b t, String.utf8EncodeChar c = b :: t ∧ first b (t ++ s) = .char c s := by
  have valid : c.val.toNat < 0xD800 ∨ 0xDFFF < c.val.toNat ∧ c.val.toNat < 0x110000 := c.valid
  have number : Char.ofNat c.val.toNat = c := Char.ofNat_toNat c
  rw [String.utf8EncodeChar]
  split_ifs with one two three
  · exact ⟨_, _, rfl, (first_one s (by omega)).trans (by rw [number])⟩
  · exact ⟨_, _, rfl, (first_two s (by omega) (by omega)).trans (by rw [number])⟩
  · exact ⟨_, _, rfl, (first_three s (by omega) (by omega) (by omega)).trans (by rw [number])⟩
  · exact ⟨_, _, rfl, (first_four s (by omega) (by omega)).trans (by rw [number])⟩

theorem decodeWithin_encode {n : ℕ} (s : List Char) (enough : (encode s).length ≤ n) :
    decodeWithin n (encode s) = some s := by
  induction s generalizing n with
  | nil => cases n <;> rfl
  | cons c s ih =>
    obtain ⟨b, t, bytes, read⟩ := first_utf8EncodeChar (encode s) c
    have whole : encode (c :: s) = b :: (t ++ encode s) := by
      rw [encode_cons, bytes, List.cons_append]
    rw [whole, List.length_cons, List.length_append] at enough
    obtain ⟨m, rfl⟩ := Nat.exists_eq_add_of_lt (Nat.zero_lt_of_lt enough)
    have rest : (encode s).length ≤ m := by omega
    rw [whole, Nat.zero_add, decodeWithin, read]
    exact congrArg (Option.map (c :: ·)) (ih rest)

theorem decode?_encode (s : List Char) : decode? (encode s) = some s :=
  decodeWithin_encode s le_rfl

end ModRemap.Utf8
