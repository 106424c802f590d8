import Mathlib
import ModRemap.Manifest

/-! The lines of a manifest, and which of them go with the digests. -/

namespace ModRemap

namespace Text

/-- A line feed ends each line but the last and stands nowhere else. No line is without characters. -/
inductive AreLines : List (List Char) → Prop
  | nil : AreLines []
  | last {l : List Char} (filled : l ≠ []) (one : '\n' ∉ l) : AreLines [l]
  | cons {l : List Char} {ls : List (List Char)} (one : '\n' ∉ l) (others : AreLines ls) :
    AreLines ((l ++ ['\n']) :: ls)

theorem areLines_linesKept (s : List Char) : AreLines (linesKept s) := by
  induction s with
  | nil => exact .nil
  | cons c s ih =>
    rw [linesKept]
    split_ifs with feed
    · exact feed ▸ .cons List.not_mem_nil ih
    · have other {l : List Char} (one : '\n' ∉ l) : '\n' ∉ c :: l :=
        List.not_mem_cons_of_ne_of_not_mem (Ne.symm feed) one
      cases rest : linesKept s with
      | nil => exact .last (List.cons_ne_nil _ _) (other List.not_mem_nil)
      | cons l ls =>
        rw [rest] at ih
        cases ih with
        | last _ one => exact .last (List.cons_ne_nil _ _) (other one)
        | cons one others => exact .cons (other one) others

theorem linesKept_of_not_mem {l : List Char} (filled : l ≠ []) (one : '\n' ∉ l) : linesKept l = [l] := by
  induction l with
  | nil => exact absurd rfl filled
  | cons c l ih =>
    obtain ⟨other, one⟩ := not_or.mp (mt List.mem_cons.mpr one)
    rw [linesKept, if_neg (Ne.symm other)]
    by_cases more : l = []
    · rw [more, linesKept]
    · rw [ih more one]

theorem AreLines.linesKept_flatten {ls : List (List Char)} (h : AreLines ls) :
    linesKept ls.flatten = ls := by
  induction h with
  | nil => simp [linesKept]
  | last filled one => rw [List.flatten_singleton, linesKept_of_not_mem filled one]
  | cons one others ih =>
    rw [List.flatten_cons, List.append_assoc, List.singleton_append, linesKept_append one, ih]

theorem AreLines.sublist {ls ls' : List (List Char)} (h : AreLines ls) (part : ls'.Sublist ls) :
    AreLines ls' := by
  induction h generalizing ls' with
  | nil => exact List.sublist_nil.mp part ▸ .nil
  | last filled one =>
    rcases List.sublist_singleton.mp part with rfl | rfl
    · exact .nil
    · exact .last filled one
  | cons one others ih =>
    cases part with
    | cons _ part => exact ih part
    | cons_cons _ part => exact .cons one (ih part)

end Text

namespace Manifest

open Text

variable {line : List Char}

/-- Nothing but what ends a line. -/
def Blank (line : List Char) : Prop := ∀ c ∈ line, c = '\n' ∨ c = '\r'

def Continues (line : List Char) : Prop := ∃ rest, line = ' ' :: rest

/-- What precedes the colon ends in `-digest`, blanks aside. -/
def IsDigestLine (line : List Char) : Prop :=
  ∃ key value front, line = key ++ ':' :: value ∧ ':' ∉ key ∧ lower (trim key) = front ++ "-digest".toList

def IsNameLine (line : List Char) : Prop := ∃ value, lower line = "name:".toList ++ value

theorem isLineEnd_iff {c : Char} : isLineEnd c = true ↔ c = '\n' ∨ c = '\r' := by
  simp [isLineEnd]

theorem content_append {c : Char} (solid : isLineEnd c = false) (u v : List Char) :
    content (u ++ c :: v) = u ++ c :: content v := by
  have stop : (v.reverse ++ c :: u.reverse).dropWhile isLineEnd =
      v.reverse.dropWhile isLineEnd ++ c :: u.reverse := by
    generalize v.reverse = w
    induction w with
    | nil => simp [solid]
    | cons d w ih =>
      rw [List.cons_append, List.dropWhile_cons, List.dropWhile_cons, ih]
      split_ifs <;> simp
  simp [content, dropWhileEnd, stop]

theorem exists_content (line : List Char) :
    ∃ ending, line = content line ++ ending ∧ Blank ending := by
  refine ⟨(line.reverse.takeWhile isLineEnd).reverse, ?_, fun c inside => ?_⟩
  · rw [content, dropWhileEnd, ← List.reverse_append, List.takeWhile_append_dropWhile,
      List.reverse_reverse]
  · exact isLineEnd_iff.mp (List.mem_takeWhile_imp (List.mem_reverse.mp inside))

theorem isEmptyLine_iff : isEmptyLine line = true ↔ Blank line := by
  simp [isEmptyLine, content, dropWhileEnd, List.dropWhile_eq_nil_iff, isLineEnd_iff, Blank]

theorem continues_iff : continues line = true ↔ Continues line := by
  rw [continues, decide_eq_true_eq]
  constructor
  · intro first
    obtain ⟨ending, whole, -⟩ := exists_content line
    obtain ⟨rest, split⟩ := List.head?_eq_some_iff.mp first
    exact ⟨rest ++ ending, by rw [whole, split, List.cons_append]⟩
  · rintro ⟨rest, rfl⟩
    have whole := content_append (show isLineEnd ' ' = false by decide) [] rest
    rw [List.nil_append, List.nil_append] at whole
    rw [whole, List.head?_cons]

theorem isDigest_iff : isDigest line = true ↔ IsDigestLine line := by
  have ends_ (key : List Char) : (dropEnd? "-digest".toList (lower (trim key))).isSome = true ↔
      ∃ front, lower (trim key) = front ++ "-digest".toList := by
    rw [Option.isSome_iff_exists]
    exact exists_congr fun _ => dropEnd?_eq_some_iff
  rw [isDigest]
  constructor
  · intro h
    split at h
    · exact nomatch h
    · rename_i key value cut
      obtain ⟨ending, whole, -⟩ := exists_content line
      obtain ⟨split, free⟩ := cut?_eq_some_iff.mp cut
      obtain ⟨front, digest⟩ := (ends_ key).mp h
      have line_eq : line = key ++ ':' :: (value ++ ending) := by
        rw [whole, split, List.append_assoc, List.cons_append]
      exact ⟨key, value ++ ending, front, line_eq, free, digest⟩
  · rintro ⟨key, value, front, rfl, free, digest⟩
    rw [content_append (by decide), cut?_eq_some_iff.mpr ⟨rfl, free⟩]
    exact (ends_ key).mpr ⟨front, digest⟩

theorem isName_iff : isName line = true ↔ IsNameLine line := by
  rw [isName, Option.isSome_iff_exists]
  simp only [dropStart?_eq_some_iff]
  constructor
  · rintro ⟨value, named⟩
    obtain ⟨ending, whole, -⟩ := exists_content line
    refine ⟨value ++ lower ending, ?_⟩
    rw [whole, lower, List.map_append, ← lower, ← lower, named, List.append_assoc]
  · -- The colon is no line end, so what is cut off stands behind it.
    rintro ⟨value, named⟩
    obtain ⟨front, rest, rfl, front', rest'⟩ := List.map_eq_append_iff.mp
      (named.trans (show _ = "name".toList ++ (':' :: value) from rfl))
    obtain ⟨c, rest, rfl, colon, rest''⟩ := List.map_eq_cons_iff.mp rest'
    have solid : isLineEnd c = false := by
      by_contra ending
      rcases isLineEnd_iff.mp (Bool.eq_true_of_not_eq_false ending) with rfl | rfl
      · exact absurd colon (by decide)
      · exact absurd colon (by decide)
    refine ⟨lower (content rest), ?_⟩
    rw [content_append solid, lower, List.map_append, List.map_cons, front', colon]
    rfl

theorem isAttribute_iff : isAttribute line = true ↔ ¬Blank line ∧ ¬Continues line ∧ ¬IsNameLine line := by
  simp only [isAttribute, Bool.and_eq_true, Bool.not_eq_true', ← Bool.not_eq_true, isEmptyLine_iff,
    continues_iff, isName_iff, and_assoc]

instance (line : List Char) : Decidable (Blank line) := decidable_of_iff _ isEmptyLine_iff
instance (line : List Char) : Decidable (Continues line) := decidable_of_iff _ continues_iff
instance (line : List Char) : Decidable (IsDigestLine line) := decidable_of_iff _ isDigest_iff
instance (line : List Char) : Decidable (IsNameLine line) := decidable_of_iff _ isName_iff

theorem Blank.not_continues (h : Blank line) : ¬Continues line := by
  rintro ⟨rest, rfl⟩
  exact absurd (h ' ' List.mem_cons_self) (by decide)

theorem Blank.not_isDigestLine (h : Blank line) : ¬IsDigestLine line := by
  rintro ⟨key, value, front, rfl, -⟩
  exact absurd (h ':' (List.mem_append_right key List.mem_cons_self)) (by decide)

/-! ### Dropping digests -/

section

variable (dropping : Bool) (lines : List (List Char))

theorem withoutDigests_of_continues (run : Continues line) : withoutDigests dropping (line :: lines) =
    if dropping then withoutDigests true lines else line :: withoutDigests false lines := by
  rw [withoutDigests, if_pos (continues_iff.mpr run)]
  cases dropping <;> rfl

theorem withoutDigests_of_starts (starts : ¬Continues line) : withoutDigests dropping (line :: lines) =
    if IsDigestLine line then withoutDigests true lines else line :: withoutDigests false lines := by
  rw [withoutDigests, if_neg (mt continues_iff.mp starts)]
  by_cases digest : IsDigestLine line
  · rw [if_pos digest, isDigest_iff.mpr digest]
    rfl
  · rw [if_neg digest, Bool.eq_false_of_not_eq_true (mt isDigest_iff.mp digest)]
    rfl

theorem withoutDigests_cons (line : List Char) : withoutDigests dropping (line :: lines) = withoutDigests true lines ∨
    withoutDigests dropping (line :: lines) = line :: withoutDigests false lines := by
  by_cases run : Continues line
  · rw [withoutDigests_of_continues dropping lines run]
    cases dropping
    · exact .inr rfl
    · exact .inl rfl
  · rw [withoutDigests_of_starts dropping lines run]
    split_ifs
    · exact .inl rfl
    · exact .inr rfl

theorem withoutDigests_sublist : (withoutDigests dropping lines).Sublist lines := by
  induction lines generalizing dropping with
  | nil => exact .slnil
  | cons line lines ih =>
    rcases withoutDigests_cons dropping lines line with gone | stays
    · exact gone ▸ (ih true).cons line
    · exact stays ▸ (ih false).cons_cons line

end

section

variable {dropping : Bool} {lines : List (List Char)}

theorem mem_withoutDigests_iff (starts : ¬Continues line) :
    line ∈ withoutDigests dropping lines ↔ line ∈ lines ∧ ¬IsDigestLine line := by
  induction lines generalizing dropping with
  | nil => simp [withoutDigests]
  | cons first lines ih =>
    by_cases run : Continues first
    · have other : line ≠ first := fun same => starts (same ▸ run)
      rw [withoutDigests_of_continues _ _ run]
      split_ifs <;> simp [ih, other]
    · rw [withoutDigests_of_starts _ _ run]
      split_ifs with digest
      · have other : ¬IsDigestLine line → line ≠ first := fun plain same => plain (same ▸ digest)
        rw [ih, List.mem_cons]
        tauto
      · have plain : line = first → ¬IsDigestLine line := fun same => same ▸ digest
        rw [List.mem_cons, ih, List.mem_cons]
        tauto

end

/-- Nothing is dropped the second time: every line that has stayed follows one that has. -/
theorem withoutDigests_twice (dropping : Bool) (lines : List (List Char)) :
    withoutDigests false (withoutDigests dropping lines) = withoutDigests dropping lines := by
  induction lines generalizing dropping with
  | nil => rfl
  | cons line lines ih =>
    by_cases run : Continues line
    · rw [withoutDigests_of_continues _ _ run]
      split_ifs
      · exact ih true
      · rw [withoutDigests_of_continues _ _ run, if_neg Bool.false_ne_true, ih]
    · rw [withoutDigests_of_starts _ _ run]
      split_ifs with digest
      · exact ih true
      · rw [withoutDigests_of_starts _ _ run, if_neg digest, ih]

theorem withoutDigests_append_blank {blank : List Char} (ends : Blank blank) (dropping : Bool)
    (body : List (List Char)) :
    withoutDigests dropping (body ++ [blank]) = withoutDigests dropping body ++ [blank] := by
  induction body generalizing dropping with
  | nil =>
    rw [List.nil_append, withoutDigests_of_starts _ _ ends.not_continues, if_neg ends.not_isDigestLine]
    rfl
  | cons line body ih =>
    rw [List.cons_append]
    by_cases run : Continues line
    · rw [withoutDigests_of_continues _ _ run, withoutDigests_of_continues _ _ run, ih, ih]
      split_ifs <;> rfl
    · rw [withoutDigests_of_starts _ _ run, withoutDigests_of_starts _ _ run, ih, ih]
      split_ifs <;> rfl

end Manifest
end ModRemap
