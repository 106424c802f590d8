import Mathlib
import ModRemap.Proofs.Utf8

/-! The lenient reading of text. A piece ends where the same byte follows it, and what a text starts with
is read as it stands exactly where it is well-formed. -/

namespace ModRemap.Utf8

theorem secondRange_eq_some {lead lo hi : UInt8} (h : secondRange lead = some (lo, hi)) :
    (0xC2 ≤ lead.toNat ∧ lead.toNat < 0xE0 ∧ lo.toNat = 0x80 ∧ hi.toNat = 0xBF) ∨
    (0xE0 ≤ lead.toNat ∧ lead.toNat < 0xF0 ∧ 0x80 ≤ lo.toNat ∧ hi.toNat ≤ 0xBF ∧
      (lead.toNat = 0xE0 → 0xA0 ≤ lo.toNat) ∧ (lead.toNat = 0xED → hi.toNat ≤ 0x9F)) ∨
    (0xF0 ≤ lead.toNat ∧ lead.toNat ≤ 0xF4 ∧ 0x80 ≤ lo.toNat ∧ hi.toNat ≤ 0xBF ∧
      (lead.toNat = 0xF0 → 0x90 ≤ lo.toNat) ∧ (lead.toNat = 0xF4 → hi.toNat ≤ 0x8F)) := by
  simp only [secondRange, UInt8.le_iff_toNat_le, ← UInt8.toNat_inj, Bool.and_eq_true,
    decide_eq_true_eq] at h
  split_ifs at h
  all_goals
    obtain ⟨rfl, rfl⟩ := Prod.mk.inj (Option.some.inj h)
    simp at *
    omega

theorem isTail_iff {b : UInt8} : isTail b = true ↔ 0x80 ≤ b.toNat ∧ b.toNat ≤ 0xBF := by
  rw [isTail, Bool.and_eq_true, decide_eq_true_eq, decide_eq_true_eq, UInt8.le_iff_toNat_le,
    UInt8.le_iff_toNat_le]
  rfl

theorem val_ofNat {n : ℕ} (valid : n < 0xD800 ∨ 0xDFFF < n ∧ n < 0x110000) :
    (Char.ofNat n).val.toNat = n := by
  have number := Char.toNat_ofNat n
  rwa [if_pos valid] at number

theorem ofNat_eq {n : ℕ} {b : UInt8} (same : n = b.toNat) : UInt8.ofNat n = b := by
  rw [same, UInt8.ofNat_toNat]

theorem utf8EncodeChar_two {a b : UInt8} (lead : 0xC2 ≤ a.toNat ∧ a.toNat < 0xE0)
    (second : 0x80 ≤ b.toNat ∧ b.toNat ≤ 0xBF) :
    String.utf8EncodeChar (Char.ofNat (a.toNat % 32 * 64 + low b)) = [a, b] := by
  have number : (Char.ofNat (a.toNat % 32 * 64 + low b)).val.toNat = a.toNat % 32 * 64 + low b :=
    val_ofNat (by unfold low; omega)
  rw [String.utf8EncodeChar, number, low, if_neg (by omega), if_pos (by omega),
    ofNat_eq (b := a) (by omega), ofNat_eq (b := b) (by omega)]

theorem utf8EncodeChar_three {a b c : UInt8} (lead : 0xE0 ≤ a.toNat ∧ a.toNat < 0xF0)
    (second : 0x80 ≤ b.toNat ∧ b.toNat ≤ 0xBF) (least : a.toNat = 0xE0 → 0xA0 ≤ b.toNat)
    (most : a.toNat = 0xED → b.toNat ≤ 0x9F) (third : 0x80 ≤ c.toNat ∧ c.toNat ≤ 0xBF) :
    String.utf8EncodeChar (Char.ofNat ((a.toNat % 16 * 64 + low b) * 64 + low c)) = [a, b, c] := by
  have number : (Char.ofNat ((a.toNat % 16 * 64 + low b) * 64 + low c)).val.toNat =
      (a.toNat % 16 * 64 + low b) * 64 + low c :=
    val_ofNat (by unfold low; omega)
  rw [String.utf8EncodeChar, number, low, low, if_neg (by omega), if_neg (by omega),
    if_pos (by omega), ofNat_eq (b := a) (by omega), ofNat_eq (b := b) (by omega),
    ofNat_eq (b := c) (by omega)]

theorem utf8EncodeChar_four {a b c d : UInt8} (lead : 0xF0 ≤ a.toNat ∧ a.toNat ≤ 0xF4)
    (second : 0x80 ≤ b.toNat ∧ b.toNat ≤ 0xBF) (least : a.toNat = 0xF0 → 0x90 ≤ b.toNat)
    (most : a.toNat = 0xF4 → b.toNat ≤ 0x8F) (third : 0x80 ≤ c.toNat ∧ c.toNat ≤ 0xBF)
    (fourth : 0x80 ≤ d.toNat ∧ d.toNat ≤ 0xBF) :
    String.utf8EncodeChar
      (Char.ofNat (((a.toNat % 8 * 64 + low b) * 64 + low c) * 64 + low d)) = [a, b, c, d] := by
  have number : (Char.ofNat (((a.toNat % 8 * 64 + low b) * 64 + low c) * 64 + low d)).val.toNat =
      ((a.toNat % 8 * 64 + low b) * 64 + low c) * 64 + low d :=
    val_ofNat (by unfold low; omega)
  rw [String.utf8EncodeChar, number, low, low, low, if_neg (by omega), if_neg (by omega),
    if_neg (by omega), ofNat_eq (b := a) (by omega), ofNat_eq (b := b) (by omega),
    ofNat_eq (b := c) (by omega), ofNat_eq (b := d) (by omega)]

/-- The same piece in front of another rest. -/
def Piece.before (rest : Bytes) : Piece → Piece
  | .char c _ => .char c rest
  | .broken _ => .broken rest

/-- What a piece takes of the bytes behind the first: none below 128, those that write a character, and
no more when the rest starts in the same way. -/
structure Takes (b : UInt8) (s t : Bytes) : Prop where
  split : s = t ++ (first b s).rest
  large : ∀ x ∈ t, 0x80 ≤ x
  again : ∀ r, r.head? = (first b s).rest.head? → first b (t ++ r) = (first b s).before r
  written : ∀ c r, first b s = .char c r → b :: t = String.utf8EncodeChar c

namespace Takes

variable {b : UInt8} (t : Bytes) (large : ∀ x ∈ t, 0x80 ≤ x) (s : Bytes)

include large

theorem of_char {c : Char} (value : ∀ r, first b (t ++ r) = .char c r)
    (written : b :: t = String.utf8EncodeChar c) : Takes b (t ++ s) t where
  split := by rw [value]; rfl
  large := large
  again r _ := by rw [value, value]; rfl
  written c' r h := by
    obtain ⟨rfl, -⟩ := Piece.char.inj ((value s).symm.trans h)
    exact written

theorem of_broken (value : ∀ r, first b (t ++ r) = .broken r) : Takes b (t ++ s) t where
  split := by rw [value]; rfl
  large := large
  again r _ := by rw [value, value]; rfl
  written c r h := nomatch (value s).symm.trans h

/-- The text ends within a character. -/
theorem of_end (value : first b t = .broken []) : Takes b t t where
  split := by rw [value]; exact (List.append_nil t).symm
  large := large
  again r short := by
    rw [value] at short ⊢
    rw [List.head?_eq_none_iff.mp short, List.append_nil, value]
    rfl
  written c r h := nomatch value.symm.trans h

/-- A byte comes that does not go on with a character. -/
theorem of_next {x : UInt8} (value : ∀ r, first b (t ++ x :: r) = .broken (x :: r)) :
    Takes b (t ++ x :: s) t where
  split := by rw [value]; rfl
  large := large
  again r same := by
    rw [value] at same ⊢
    obtain ⟨r, rfl⟩ := List.head?_eq_some_iff.mp same
    exact value r
  written c r h := nomatch (value s).symm.trans h

end Takes

theorem exists_takes (b : UInt8) (s : Bytes) : ∃ t, Takes b s t := by
  by_cases ascii : b < 0x80
  · have small : b.toNat < 0x80 := UInt8.lt_iff_toNat_lt.mp ascii
    have number : (Char.ofNat b.toNat).toNat = b.toNat := val_ofNat (by omega)
    refine ⟨[], .of_char [] (by simp) s (fun r => if_pos ascii) ?_⟩
    rw [utf8EncodeChar_of_ascii (number.trans_lt small), number, UInt8.ofNat_toNat]
  cases range : secondRange b with
  | none => exact ⟨[], .of_broken [] (by simp) s fun r => by simp [first, ascii, range]⟩
  | some bounds =>
  obtain ⟨lo, hi⟩ := bounds
  have known := secondRange_eq_some range
  cases s with
  | nil => exact ⟨[], .of_end [] (by simp) (by simp [first, ascii, range])⟩
  | cons x s =>
  by_cases second : lo ≤ x ∧ x ≤ hi
  case neg => exact ⟨[], .of_next [] (by simp) s fun r => by simp [first, ascii, range, second]⟩
  have bounds := second
  rw [UInt8.le_iff_toNat_le, UInt8.le_iff_toNat_le] at bounds
  have xs : 0x80 ≤ x := UInt8.le_iff_toNat_le.mpr (by simp; omega)
  by_cases two : b < 0xE0
  · have lead : b.toNat < 0xE0 := UInt8.lt_iff_toNat_lt.mp two
    exact ⟨[x], .of_char [x] (by simp [xs]) s (fun r => by simp [first, ascii, range, second, two])
      (utf8EncodeChar_two (by omega) (by omega)).symm⟩
  have lead : 0xE0 ≤ b.toNat := Nat.not_lt.mp fun small => two (UInt8.lt_iff_toNat_lt.mpr small)
  cases s with
  | nil => exact ⟨[x], .of_end [x] (by simp [xs]) (by simp [first, ascii, range, second, two])⟩
  | cons y s =>
  by_cases third : isTail y = true
  case neg => exact ⟨[x], .of_next [x] (by simp [xs]) s fun r => by
    simp [first, ascii, range, second, two, third]⟩
  have bounds' := isTail_iff.mp third
  have ys : 0x80 ≤ y := UInt8.le_iff_toNat_le.mpr bounds'.1
  by_cases three : b < 0xF0
  · have lead' : b.toNat < 0xF0 := UInt8.lt_iff_toNat_lt.mp three
    exact ⟨[x, y], .of_char [x, y] (by simp [xs, ys]) s
      (fun r => by simp [first, ascii, range, second, two, third, three])
      (utf8EncodeChar_three (by omega) (by omega) (by omega) (by omega) bounds').symm⟩
  have lead' : 0xF0 ≤ b.toNat := Nat.not_lt.mp fun small => three (UInt8.lt_iff_toNat_lt.mpr small)
  cases s with
  | nil => exact ⟨[x, y], .of_end [x, y] (by simp [xs, ys])
      (by simp [first, ascii, range, second, two, third, three])⟩
  | cons z s =>
  by_cases fourth : isTail z = true
  case neg => exact ⟨[x, y], .of_next [x, y] (by simp [xs, ys]) s fun r => by
    simp [first, ascii, range, second, two, third, three, fourth]⟩
  have zs : 0x80 ≤ z := UInt8.le_iff_toNat_le.mpr (isTail_iff.mp fourth).1
  exact ⟨[x, y, z], .of_char [x, y, z] (by simp [xs, ys, zs]) s
    (fun r => by simp [first, ascii, range, second, two, third, three, fourth])
    (utf8EncodeChar_four (by omega) (by omega) (by omega) (by omega) bounds' (isTail_iff.mp fourth)).symm⟩

/-- A character is read from its own bytes. -/
theorem utf8EncodeChar_of_first {b : UInt8} {s r : Bytes} {c : Char} (h : first b s = .char c r) :
    b :: s = String.utf8EncodeChar c ++ r := by
  obtain ⟨t, takes⟩ := exists_takes b s
  have split := takes.split
  rw [h, Piece.rest] at split
  rw [← takes.written c r h, split, List.cons_append]

/-! ### The lenient reading -/

/-- The character that a piece is read as. -/
def Piece.read : Piece → Char
  | .char c _ => c
  | .broken _ => replacement

theorem lossyWithin_cons (n : ℕ) (b : UInt8) (s : Bytes) :
    lossyWithin (n + 1) (b :: s) = (first b s).read :: lossyWithin n (first b s).rest := by
  rw [lossyWithin]
  cases first b s <;> rfl

theorem lossyWithin_eq {n : ℕ} {s : Bytes} (enough : s.length ≤ n) :
    lossyWithin n s = decodeLossy s := by
  have same {n m : ℕ} {s : Bytes} (h : s.length ≤ n) (h' : s.length ≤ m) :
      lossyWithin n s = lossyWithin m s := by
    induction n generalizing m s with
    | zero =>
      obtain rfl := List.eq_nil_of_length_eq_zero (Nat.le_zero.mp h)
      cases m <;> rfl
    | succ n ih =>
      cases s with
      | nil => cases m <;> rfl
      | cons b s =>
        obtain ⟨m, rfl⟩ := Nat.exists_eq_add_of_le' ((Nat.succ_pos _).trans_le h')
        rw [List.length_cons] at h h'
        have shorter := first_rest_length_le b s
        rw [lossyWithin_cons, lossyWithin_cons, ih (m := m) (by omega) (by omega)]
  exact same enough le_rfl

theorem decodeLossy_cons (b : UInt8) (s : Bytes) :
    decodeLossy (b :: s) = (first b s).read :: decodeLossy (first b s).rest := by
  rw [decodeLossy, List.length_cons, lossyWithin_cons, lossyWithin_eq (first_rest_length_le b s)]

theorem decodeLossy_char (c : Char) (s : Bytes) :
    decodeLossy (String.utf8EncodeChar c ++ s) = c :: decodeLossy s := by
  obtain ⟨b, t, bytes, read⟩ := first_utf8EncodeChar s c
  rw [bytes, List.cons_append, decodeLossy_cons, read]
  rfl

theorem decodeLossy_append (s : List Char) (t : Bytes) :
    decodeLossy (encode s ++ t) = s ++ decodeLossy t := by
  induction s with
  | nil => rfl
  | cons c s ih => rw [encode_cons, List.append_assoc, decodeLossy_char, ih, List.cons_append]

theorem decodeLossy_encode (s : List Char) : decodeLossy (encode s) = s := by
  have whole := decodeLossy_append s []
  rwa [List.append_nil, show decodeLossy [] = [] from rfl, List.append_nil] at whole

theorem utf8EncodeChar_replacement : String.utf8EncodeChar replacement = [0xEF, 0xBF, 0xBD] := rfl

/-- A broken piece begins as the replacement character does only where the text breaks off in it. -/
theorem eq_of_prefix_of_broken {b : UInt8} {s r tail : Bytes} (broken : first b s = .broken r)
    (start : b :: s <+: [0xEF, 0xBF, 0xBD] ++ tail) : b = 0xEF ∧ (s = [] ∨ s = [0xBF]) := by
  obtain ⟨rfl, second⟩ := List.cons_prefix_cons.mp start
  refine ⟨rfl, ?_⟩
  cases s with
  | nil => exact .inl rfl
  | cons x s =>
    obtain ⟨rfl, third⟩ := List.cons_prefix_cons.mp second
    cases s with
    | nil => exact .inr rfl
    | cons y s =>
      obtain ⟨rfl, -⟩ := List.cons_prefix_cons.mp third
      exact nomatch broken

/-- Only well-formed text is what its lenient reading starts with, and text that breaks off within the
replacement character itself, which is then completed. -/
theorem prefix_decodeLossy_iff (s tail : Bytes) :
    s <+: encode (decodeLossy s) ++ tail ↔
      ∃ text, s = encode text ∨ s = encode text ++ [0xEF] ∨ s = encode text ++ [0xEF, 0xBF] := by
  constructor
  · intro start
    induction n : s.length using Nat.strong_induction_on generalizing s with
    | _ n ih =>
      cases s with
      | nil => exact ⟨[], .inl rfl⟩
      | cons b s =>
        rw [decodeLossy_cons, encode_cons] at start
        cases piece : first b s with
        | char c r =>
          have bytes := utf8EncodeChar_of_first piece
          rw [piece, Piece.read, Piece.rest, bytes, List.append_assoc, List.prefix_append_right_inj] at start
          have shorter := first_rest_length_le b s
          rw [piece, Piece.rest] at shorter
          obtain ⟨text, form⟩ := ih r.length (by rw [← n, List.length_cons]; omega) r start rfl
          refine ⟨c :: text, ?_⟩
          rw [bytes, encode_cons]
          simpa only [List.append_assoc, List.append_cancel_left_eq] using form
        | broken r =>
          rw [piece, Piece.read, utf8EncodeChar_replacement, List.append_assoc] at start
          obtain ⟨rfl, rfl | rfl⟩ := eq_of_prefix_of_broken piece start
          · exact ⟨[], .inr (.inl rfl)⟩
          · exact ⟨[], .inr (.inr rfl)⟩
  · rintro ⟨text, rfl | rfl | rfl⟩
    · rw [decodeLossy_encode]
      exact List.prefix_append _ _
    · rw [decodeLossy_append, encode_append, List.append_assoc, List.prefix_append_right_inj]
      exact ⟨[0xBF, 0xBD] ++ tail, rfl⟩
    · rw [decodeLossy_append, encode_append, List.append_assoc, List.prefix_append_right_inj]
      exact ⟨[0xBD] ++ tail, rfl⟩

end ModRemap.Utf8
