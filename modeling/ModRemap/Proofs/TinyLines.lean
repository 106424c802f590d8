import Mathlib
import ModRemap.Mapping.Tiny
import ModRemap.Proofs.Paths

/-! The lines of mapping files and the columns of a line. -/

namespace ModRemap

namespace Text

/-- Lines, each with a line feed after it. -/
def unlines (ls : List String) : String := String.ofList (ls.flatMap fun l => l.toList ++ ['\n'])

/-- A line without the carriage return at its end. -/
def bare (l : List Char) : List Char := (dropEnd? ['\r'] l).getD l

/-- Either there was none, or it alone is gone. -/
theorem eq_bare_append (l : List Char) : l = bare l ∨ l = bare l ++ ['\r'] := by
  unfold bare
  cases cut : dropEnd? ['\r'] l with
  | none => exact .inl rfl
  | some l' => exact .inr (dropEnd?_eq_some_iff.mp cut)

theorem bare_of_not_mem {l : List Char} (plain : '\r' ∉ l) : bare l = l := by
  rcases eq_bare_append l with same | longer
  · exact same.symm
  · exact absurd (longer ▸ List.mem_append_right _ List.mem_cons_self) plain

/-- What comes before has no say in it. -/
theorem bare_append {u : List Char} (plain : '\r' ∉ u) (v : List Char) : bare (u ++ v) = u ++ bare v := by
  rcases List.eq_nil_or_concat v with rfl | ⟨v, c, rfl⟩
  · rw [List.append_nil, bare_of_not_mem plain]
    exact (List.append_nil u).symm
  · by_cases last : c = '\r'
    · have cut (w : List Char) : bare (w ++ ['\r']) = w := by
        rw [bare, dropEnd?_eq_some_iff.mpr rfl]
        rfl
      rw [last, List.concat_eq_append, ← List.append_assoc, cut, cut]
    · have whole (w : List Char) : bare (w ++ [c]) = w ++ [c] := by
        rcases eq_bare_append (w ++ [c]) with same | longer
        · exact same.symm
        · exact absurd (List.append_inj' longer rfl).2 (by simpa using last)
      rw [List.concat_eq_append, ← List.append_assoc, whole, whole, List.append_assoc]

theorem chomp_append (l : List Char) : chomp (l ++ ['\n']) = bare l := by
  have cut : dropEnd? ['\n'] (l ++ ['\n']) = some l := dropEnd?_eq_some_iff.mpr rfl
  rw [chomp, cut]
  rfl

theorem lines_unlines {ls : List String} (one : ∀ l ∈ ls, '\n' ∉ l.toList) :
    lines (unlines ls).toList = ls.map fun l => bare l.toList := by
  unfold unlines
  rw [String.toList_ofList]
  induction ls with
  | nil => rfl
  | cons l ls ih =>
    obtain ⟨first, others⟩ := List.forall_mem_cons.mp one
    rw [List.flatMap_cons, List.append_assoc, List.singleton_append, lines, linesKept_append first,
      List.map_cons, chomp_append]
    exact congrArg _ (ih others)

end Text

namespace Tiny

open Text

theorem exists_two {α : Type} {l : List α} (wide : 2 ≤ l.length) :
    ∃ a b rest, l = a :: b :: rest := by
  rcases l with _ | ⟨a, _ | ⟨b, rest⟩⟩
  · simp at wide
  · simp at wide
  · exact ⟨a, b, rest, rfl⟩

/-! ### Columns -/

/-- No tab and nothing that ends a line. -/
def Plain (s : String) : Prop := ∀ c ∈ s.toList, c ≠ '\t' ∧ c ≠ '\r' ∧ c ≠ '\n'

/-- Columns, with a tab between them. -/
def row (cols : List String) : String := Text.join "\t" cols

theorem toList_row (cols : List String) :
    (row cols).toList = ['\t'].intercalate (cols.map String.toList) :=
  String.toList_intercalate

theorem toList_row_cons (col : String) {cols : List String} (more : cols ≠ []) :
    (row (col :: cols)).toList = col.toList ++ '\t' :: (row cols).toList := by
  obtain ⟨col', cols, rfl⟩ := List.exists_cons_of_ne_nil more
  rw [toList_row, toList_row, List.map_cons, List.map_cons, List.intercalate_cons_cons,
    List.append_assoc, List.singleton_append]

theorem columns_row {cols : List String} (some : cols ≠ []) (plain : ∀ col ∈ cols, Plain col) :
    columns (row cols).toList = cols := by
  have free : ∀ l ∈ cols.map String.toList, '\t' ∉ l := by
    intro l member tab
    obtain ⟨col, listed, rfl⟩ := List.mem_map.mp member
    exact (plain col listed '\t' tab).1 rfl
  rw [columns, toList_row, fields_eq_splitOn, List.splitOn_intercalate _ free
    (mt List.map_eq_nil_iff.mp some), List.map_map]
  exact List.map_id'' (fun col => String.ofList_toList) cols

theorem mem_row {cols : List String} (plain : ∀ col ∈ cols, Plain col) {c : Char}
    (member : c ∈ (row cols).toList) : c ≠ '\r' ∧ c ≠ '\n' := by
  induction cols with
  | nil => cases member
  | cons col cols ih =>
    obtain ⟨first, others⟩ := List.forall_mem_cons.mp plain
    rcases eq_or_ne cols [] with rfl | more
    · have single : (row [col]).toList = col.toList := by
        rw [toList_row, List.map_singleton, List.intercalate_singleton]
      exact (first c (single ▸ member)).2
    · rw [toList_row_cons col more] at member
      rcases List.mem_append.mp member with here | later
      · exact (first c here).2
      rcases List.mem_cons.mp later with rfl | later
      · decide
      · exact ih others later

theorem bare_row {cols : List String} (plain : ∀ col ∈ cols, Plain col) :
    bare (row cols).toList = (row cols).toList :=
  bare_of_not_mem fun member => (mem_row plain member).1 rfl

/-! ### Names -/

/-- How a character is written in a name that is escaped. -/
def escapeChar (c : Char) : List Char :=
  if c = '\\' then ['\\', '\\'] else if c = '\n' then ['\\', 'n'] else if c = '\r' then ['\\', 'r']
  else if c = '\t' then ['\\', 't'] else if c = '\x00' then ['\\', '0'] else [c]

def escape (name : String) : String := String.ofList (name.toList.flatMap escapeChar)

theorem unescape_append (c : Char) (s : List Char) :
    unescape (escapeChar c ++ s) = c :: unescape s := by
  unfold escapeChar
  split_ifs with h₁ h₂ h₃ h₄ h₅
  · rw [h₁]
    rfl
  · rw [h₂]
    rfl
  · rw [h₃]
    rfl
  · rw [h₄]
    rfl
  · rw [h₅]
    rfl
  · rw [List.singleton_append]
    exact unescape.eq_4 c s (fun same _ => h₁ same) fun _ _ same _ => h₁ same

theorem unescape_escape (name : String) : String.ofList (unescape (escape name).toList) = name := by
  have undone (s : List Char) : unescape (s.flatMap escapeChar) = s := by
    induction s with
    | nil => rfl
    | cons c s ih => rw [List.flatMap_cons, unescape_append, ih]
  rw [escape, String.toList_ofList, undone, String.ofList_toList]

theorem plain_escape (name : String) : Plain (escape name) := by
  intro c member
  rw [escape, String.toList_ofList] at member
  obtain ⟨c', -, member⟩ := List.mem_flatMap.mp member
  have pair (x : Char) (solid : x ≠ '\t' ∧ x ≠ '\r' ∧ x ≠ '\n') (member : c ∈ ['\\', x]) :
      c ≠ '\t' ∧ c ≠ '\r' ∧ c ≠ '\n' := by
    rcases List.mem_cons.mp member with rfl | last
    · decide
    · exact List.mem_singleton.mp last ▸ solid
  unfold escapeChar at member
  split_ifs at member with h₁ h₂ h₃ h₄ h₅
  · exact pair _ (by decide) member
  · exact pair _ (by decide) member
  · exact pair _ (by decide) member
  · exact pair _ (by decide) member
  · exact pair _ (by decide) member
  · exact List.mem_singleton.mp member ▸ ⟨h₄, h₃, h₂⟩

/-- How names may be written down: one that equals the first may be left empty. -/
def Shows (names shown : List String) : Prop :=
  shown.head? = names.head? ∧
    List.Forall₂ (fun name col => col = name ∨ col = "" ∧ names.head? = some name) names shown

theorem completeNames_of_shows {names shown : List String} (complete : completeNames names = names)
    (shows : Shows names shown) : completeNames shown = names := by
  obtain ⟨head, shows⟩ := shows
  cases shows with
  | nil => rfl
  | @cons first first' others shown _ rest =>
    obtain rfl : first' = first := Option.some.inj head
    replace rest : List.Forall₂ (fun name col => col = name ∨ col = "" ∧ first' = name) others shown :=
      rest.imp fun _ _ => Or.imp_right (And.imp_right Option.some.inj)
    replace complete : others.map (fun n => if n = "" then first' else n) = others :=
      List.tail_eq_of_cons_eq complete
    have same : shown.map (fun n => if n = "" then first' else n) = others := by
      clear * - rest complete
      induction rest with
      | nil => rfl
      | cons written rest ih =>
        obtain ⟨here, later⟩ := List.cons.inj complete
        refine List.cons_eq_cons.mpr ⟨?_, ih later⟩
        rcases written with rfl | ⟨rfl, isFirst⟩
        · exact here
        · exact isFirst
    exact congrArg (first' :: ·) same

theorem mem_of_shows {names shown : List String} (shows : Shows names shown) {col : String}
    (member : col ∈ shown) : col = "" ∨ col ∈ names := by
  obtain ⟨-, shows⟩ := shows
  generalize names.head? = first at shows
  induction shows with
  | nil => cases member
  | cons written rest ih =>
    rcases List.mem_cons.mp member with rfl | later
    · rcases written with rfl | ⟨empty, -⟩
      · exact .inr List.mem_cons_self
      · exact .inl empty
    · exact (ih later).imp_right (List.mem_cons_of_mem _)

/-- An empty column is as plain as the names. -/
theorem plain_of_shows {names shown : List String} (plain : ∀ name ∈ names, Plain name)
    (shows : Shows names shown) : ∀ col ∈ shown, Plain col := by
  intro col member
  rcases mem_of_shows shows member with rfl | listed
  · exact fun c inside => by cases inside
  · exact plain col listed

end Tiny

end ModRemap
