import Mathlib
import ModRemap.Proofs.ManifestSections

/-! The main section of a manifest: what there is up to and including its first blank line. -/

namespace ModRemap.Manifest

open Text

section

variable {α : Type} [DecidableEq α] (feed ret : α)

/-- What there is up to and including the first line that is blank, or all. The flag tells whether the
line so far is blank. -/
def upToBlank (blank : Bool) : List α → List α
  | [] => []
  | a :: s =>
    if a = feed then a :: if blank then [] else upToBlank true s
    else a :: upToBlank (blank && a = ret) s

theorem head?_upToBlank (blank : Bool) (s : List α) : (upToBlank feed ret blank s).head? = s.head? := by
  cases s with
  | nil => simp [upToBlank]
  | cons a s =>
    rw [upToBlank]
    split_ifs <;> simp

variable {feed ret}

theorem upToBlank_append {t : List α} (solid : ∀ a ∈ t, a ≠ feed ∧ a ≠ ret) (s : List α) :
    upToBlank feed ret false (t ++ s) = t ++ upToBlank feed ret false s := by
  induction t with
  | nil => simp
  | cons a t ih =>
    obtain ⟨first, others⟩ := List.forall_mem_cons.mp solid
    simp [upToBlank, first.1, ih others]

theorem upToBlank_of_not_mem {l : List α} (one : feed ∉ l) (blank : Bool) :
    upToBlank feed ret blank l = l := by
  induction l generalizing blank with
  | nil => simp [upToBlank]
  | cons a l ih =>
    obtain ⟨other, one⟩ := not_or.mp (mt List.mem_cons.mpr one)
    rw [upToBlank, if_neg (Ne.symm other), ih one]

end

/-! ### In characters -/

theorem upToBlank_line {l : List Char} (one : '\n' ∉ l) (blank : Bool) (s : List Char) :
    upToBlank '\n' '\r' blank (l ++ '\n' :: s) =
      l ++ '\n' :: if blank && l.all (· = '\r') then [] else upToBlank '\n' '\r' true s := by
  induction l generalizing blank with
  | nil => simp [upToBlank]
  | cons c l ih =>
    obtain ⟨other, one⟩ := not_or.mp (mt List.mem_cons.mpr one)
    rw [List.cons_append, upToBlank, if_neg (Ne.symm other), ih one, List.all_cons, Bool.and_assoc,
      List.cons_append]

theorem isEmptyLine_append {l : List Char} (one : '\n' ∉ l) :
    isEmptyLine (l ++ ['\n']) = l.all (· = '\r') := by
  rw [Bool.eq_iff_iff, isEmptyLine_iff, List.all_eq_true]
  constructor
  · intro blank c inside
    rcases blank c (List.mem_append_left _ inside) with rfl | ret
    · exact absurd inside one
    · exact decide_eq_true ret
  · intro rets c inside
    rcases List.mem_append.mp inside with inside | feed
    · exact .inr (of_decide_eq_true (rets c inside))
    · exact .inl (List.mem_singleton.mp feed)

theorem flatten_head_sections {ls : List (List Char)} (h : AreLines ls) :
    (sections ls).head?.map List.flatten = some (upToBlank '\n' '\r' true ls.flatten) := by
  induction h with
  | nil => simp [sections, upToBlank]
  | @last l filled one =>
    rw [List.flatten_singleton, upToBlank_of_not_mem one, sections]
    split_ifs <;> simp [sections]
  | @cons l ls one others ih =>
    rw [List.flatten_cons, List.append_assoc, List.singleton_append, upToBlank_line one, sections,
      isEmptyLine_append one, Bool.true_and]
    split_ifs
    · simp
    · cases parts : sections ls with
      | nil => simp [parts] at ih
      | cons first others => simpa [parts] using ih

theorem prefix_stripChars (s : List Char) : upToBlank '\n' '\r' true s <+: stripChars s := by
  have head := flatten_head_sections (areLines_linesKept s)
  rw [flatten_linesKept] at head
  rw [stripChars]
  cases parts : sections (linesKept s) with
  | nil => simp [parts] at head
  | cons main others =>
    rw [parts, List.head?_cons, Option.map_some] at head
    exact Option.some.inj head ▸ List.prefix_append _ _

/-! ### In bytes -/

/-- What there is up to and including the first blank line, or all. -/
def mainSection (manifest : Bytes) : Bytes := upToBlank 0x0A 0x0D true manifest

theorem ofNat_eq_iff {b : UInt8} (ascii : b < 0x80) {n : UInt8} (low : n < 0x80) :
    Char.ofNat b.toNat = Char.ofNat n.toNat ↔ b = n := by
  have number {x : UInt8} (small : x < 0x80) : (Char.ofNat x.toNat).val.toNat = x.toNat := by
    have := UInt8.lt_iff_toNat_lt.mp small
    exact Utf8.val_ofNat (.inl (by simp at this; omega))
  constructor
  · intro same
    rw [← UInt8.toNat_inj, ← number ascii, ← number low, same]
  · intro same
    rw [same]

theorem read_ne {b : UInt8} {s : Bytes} (large : ¬b < 0x80) {c : Char} (low : c.toNat < 0x80) :
    (Utf8.first b s).read ≠ c := by
  intro read
  cases piece : Utf8.first b s with
  | char d r =>
    rw [piece, Utf8.Piece.read] at read
    have bytes := Utf8.utf8EncodeChar_of_first piece
    rw [read, Utf8.utf8EncodeChar_of_ascii low, List.singleton_append] at bytes
    have lead : b = UInt8.ofNat c.toNat := (List.cons.inj bytes).1
    exact large (lead ▸ UInt8.lt_iff_toNat_lt.mpr (by simp; omega))
  | broken r =>
    rw [piece, Utf8.Piece.read] at read
    exact absurd (read ▸ low) (by decide)

/-- Decoding does not move the blank line: no piece reaches over the end of a line. -/
theorem upToBlank_decodeLossy (m : Bytes) (blank : Bool) :
    upToBlank '\n' '\r' blank (Utf8.decodeLossy m) =
      Utf8.decodeLossy (upToBlank 0x0A 0x0D blank m) := by
  induction n : m.length using Nat.strong_induction_on generalizing m blank with
  | _ n ih =>
    cases m with
    | nil => simp [upToBlank, Utf8.decodeLossy, Utf8.lossyWithin]
    | cons b s =>
      rw [List.length_cons] at n
      by_cases ascii : b < 0x80
      · have alone (r : Bytes) :
            Utf8.decodeLossy (b :: r) = Char.ofNat b.toNat :: Utf8.decodeLossy r := by
          rw [Utf8.decodeLossy_cons, Utf8.first, if_pos ascii]
          rfl
        have feed : Char.ofNat b.toNat = '\n' ↔ b = 0x0A := ofNat_eq_iff ascii (n := 0x0A) (by decide)
        have ret : Char.ofNat b.toNat = '\r' ↔ b = 0x0D := ofNat_eq_iff ascii (n := 0x0D) (by decide)
        have later (flag : Bool) := ih s.length (by omega) s flag rfl
        rw [alone, upToBlank, upToBlank]
        simp only [feed, ret, later]
        split_ifs
        · rw [alone]
          rfl
        · rw [alone]
        · rw [alone]
      · -- No byte of this piece ends a line, and what is cut off later leaves the piece as it is.
        obtain ⟨t, takes⟩ := Utf8.exists_takes b s
        have solid (a : UInt8) (large : 0x80 ≤ a) : a ≠ 0x0A ∧ a ≠ 0x0D := by
          constructor
          · rintro rfl
            exact absurd large (by decide)
          · rintro rfl
            exact absurd large (by decide)
        obtain ⟨feed, ret⟩ := solid b (UInt8.not_lt.mp ascii)
        have feed' : (Utf8.first b s).read ≠ '\n' := read_ne ascii (by decide)
        have ret' : (Utf8.first b s).read ≠ '\r' := read_ne ascii (by decide)
        have shorter := Utf8.first_rest_length_le b s
        have later := ih _ (by omega) (Utf8.first b s).rest false rfl
        have cut : upToBlank 0x0A 0x0D false s =
            t ++ upToBlank 0x0A 0x0D false (Utf8.first b s).rest := by
          rw [← upToBlank_append fun a inside => solid a (takes.large a inside), ← takes.split]
        have again := takes.again _ (head?_upToBlank 0x0A 0x0D false (Utf8.first b s).rest)
        rw [Utf8.decodeLossy_cons, upToBlank, if_neg feed', upToBlank, if_neg feed, decide_eq_false ret,
          decide_eq_false ret', Bool.and_false, later, cut, Utf8.decodeLossy_cons, again]
        cases Utf8.first b s <;> rfl

/-- What is written starts with the main section as it is decoded. It starts with its very bytes where
these are UTF-8, and where they break off in a replacement character, but nowhere else. -/
theorem mainSection_prefix_stripDigests_iff (m : Bytes) :
    Utf8.encode (Utf8.decodeLossy (mainSection m)) <+: stripDigests m ∧
    (mainSection m <+: stripDigests m ↔ ∃ text, mainSection m = Utf8.encode text ∨
      mainSection m = Utf8.encode text ++ [0xEF] ∨
      mainSection m = Utf8.encode text ++ [0xEF, 0xBF]) := by
  obtain ⟨rest, whole⟩ := prefix_stripChars (Utf8.decodeLossy m)
  have written : stripDigests m =
      Utf8.encode (Utf8.decodeLossy (mainSection m)) ++ Utf8.encode rest := by
    rw [stripDigests, ← whole, Utf8.encode_append, upToBlank_decodeLossy]
    rfl
  rw [written]
  exact ⟨List.prefix_append _ _, Utf8.prefix_decodeLossy_iff _ _⟩

/-- A character cut by the end of a line is not written back. -/
theorem not_prefix_of_cut_character :
    ¬mainSection [0x41, 0x3A, 0x20, 0xC3, 0x0A, 0x20, 0xA9, 0x0A, 0x0A] <+:
      stripDigests [0x41, 0x3A, 0x20, 0xC3, 0x0A, 0x20, 0xA9, 0x0A, 0x0A] := by
  decide +kernel

end ModRemap.Manifest
