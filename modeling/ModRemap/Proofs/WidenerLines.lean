import Mathlib
import ModRemap.Proofs.EntryFormats
import ModRemap.Proofs.Paths
import ModRemap.Proofs.Utf8

/-! An access widener is rewritten line by line: a line that follows an accepted part comes out after
what the part comes out as. -/

namespace ModRemap

namespace Text

theorem words_eq_filter_splitOnP (s : List Char) :
    words s = (s.splitOnP isBlank).filter (· ≠ []) := by
  unfold words
  congr 1
  induction s with
  | nil => rfl
  | cons c s ih =>
    rw [List.foldr_cons, ih, List.splitOnP_cons_eq_if_modifyHead]
    split_ifs
    · rfl
    · obtain ⟨w, ws, pieces⟩ := List.exists_cons_of_ne_nil (List.splitOnP_ne_nil isBlank s)
      rw [pieces]
      rfl

theorem splitOnP_intercalate {p : Char → Bool} {sep : Char} (sep_pos : p sep = true)
    {ls : List (List Char)} (some : ls ≠ []) (free : ∀ l ∈ ls, ∀ c ∈ l, p c = false) :
    ([sep].intercalate ls).splitOnP p = ls := by
  induction ls with
  | nil => exact absurd rfl some
  | cons l ls ih =>
    obtain ⟨first, others⟩ := List.forall_mem_cons.mp free
    cases ls with
    | nil => rw [List.intercalate_singleton, List.splitOnP_eq_singleton first]
    | cons l' ls =>
      rw [List.intercalate_cons_cons, List.append_assoc, List.singleton_append,
        List.splitOnP_append_cons_of_forall_mem first sep sep_pos,
        ih (List.cons_ne_nil l' ls) others]

theorem mem_intercalate {sep c : Char} {ls : List (List Char)} (inside : c ∈ [sep].intercalate ls) :
    c = sep ∨ ∃ l ∈ ls, c ∈ l := by
  induction ls with
  | nil => exact absurd inside List.not_mem_nil
  | cons l ls ih =>
    cases ls with
    | nil => exact .inr ⟨l, List.mem_cons_self, by rwa [List.intercalate_singleton] at inside⟩
    | cons l' ls =>
      rw [List.intercalate_cons_cons, List.append_assoc, List.singleton_append] at inside
      rcases List.mem_append.mp inside with here | later
      · exact .inr ⟨l, List.mem_cons_self, here⟩
      rcases List.mem_cons.mp later with between | later
      · exact .inl between
      · exact (ih later).imp_right fun ⟨l, member, within⟩ =>
          ⟨l, List.mem_cons_of_mem _ member, within⟩

end Text

namespace AccessWidener

open Text

/-- A text that can stand in a line as one word, before any comment. -/
def IsToken (token : String) : Prop :=
  token ≠ "" ∧ ∀ c ∈ token.toList, isBlank c = false ∧ c ≠ '#'

theorem toList_tabbed (tokens : List String) :
    (tabbed tokens).toList = ['\t'].intercalate (tokens.map String.toList) :=
  String.toList_intercalate

section

variable {tokens : List String} (solid : ∀ token ∈ tokens, IsToken token)

include solid

theorem words_tabbed (some : tokens ≠ []) :
    (words (tabbed tokens).toList).map String.ofList = tokens := by
  have pieces : (['\t'].intercalate (tokens.map String.toList)).splitOnP isBlank =
      tokens.map String.toList := by
    refine splitOnP_intercalate rfl (mt List.map_eq_nil_iff.mp some) fun l member c inside => ?_
    obtain ⟨token, listed, rfl⟩ := List.mem_map.mp member
    exact ((solid token listed).2 c inside).1
  have nonempty : ∀ l ∈ tokens.map String.toList, decide (l ≠ []) = true := by
    intro l member
    obtain ⟨token, listed, rfl⟩ := List.mem_map.mp member
    exact decide_eq_true (mt String.toList_eq_nil_iff.mp (solid token listed).1)
  rw [toList_tabbed, words_eq_filter_splitOnP, pieces, List.filter_eq_self.mpr nonempty,
    List.map_map]
  exact (List.map_congr_left fun token _ => String.ofList_toList).trans (List.map_id tokens)

/-- Between the words there is nothing but tabs. -/
theorem mem_tabbed {c : Char} (inside : c ∈ (tabbed tokens).toList) :
    c = '\t' ∨ isBlank c = false ∧ c ≠ '#' := by
  rw [toList_tabbed] at inside
  rcases mem_intercalate inside with tab | ⟨l, member, within⟩
  · exact .inl tab
  · obtain ⟨token, listed, rfl⟩ := List.mem_map.mp member
    exact .inr ((solid token listed).2 c within)

end

variable {ix : MappingIndex}

theorem remapLine_tabbed {tokens new : List String} (some : tokens ≠ [])
    (solid : ∀ token ∈ tokens, IsToken token) (number : ℕ) {v : Version}
    (renamed : remapDeclaration ix v tokens = .ok new) :
    remapLine ix number (.some v) (tabbed tokens).toList = .ok (.some v, tabbed new) := by
  have plain : '\r' ∉ (tabbed tokens).toList := fun inside =>
    (mem_tabbed solid inside).elim (by decide) fun solid => absurd solid.1 (by decide)
  have whole : (dropEnd? ['\r'] (tabbed tokens).toList).getD (tabbed tokens).toList =
      (tabbed tokens).toList := by
    obtain ⟨tail, split, rfl | rfl⟩ := getD_dropEnd? (tabbed tokens).toList
    · rwa [List.append_nil] at split
    · exact absurd (split ▸ List.mem_append_right _ List.mem_cons_self) plain
  have uncommented : splitComment (tabbed tokens).toList = ((tabbed tokens).toList, []) := by
    have none : ∀ c ∈ (tabbed tokens).toList, decide (c ≠ '#') = true := fun c inside =>
      decide_eq_true ((mem_tabbed solid inside).elim (fun tab => tab ▸ by decide) And.right)
    exact Prod.ext (List.takeWhile_eq_self_iff.mpr none) (List.dropWhile_eq_nil_iff.mpr none)
  unfold remapLine
  dsimp only
  rw [whole, uncommented]
  dsimp only
  rw [words_tabbed solid some, List.isEmpty_eq_false_iff.mpr some, if_neg Bool.false_ne_true,
    renamed]
  rfl

theorem remapLines_cons (ix : MappingIndex) (number : ℕ) (version : Option Version)
    (line : List Char) (lines : List (List Char)) :
    remapLines ix number version (line :: lines) = (do
      let p ← remapLine ix number version line
      return p.2 :: (← remapLines ix (number + 1) p.1 lines)) := by
  cases version <;> rfl

theorem remapLines_cons_eq_ok {number : ℕ} {version : Option Version} {line : List Char}
    {lines : List (List Char)} {out : List String} :
    remapLines ix number version (line :: lines) = .ok out ↔
      ∃ p, remapLine ix number version line = .ok p ∧
        ∃ out', remapLines ix (number + 1) p.1 lines = .ok out' ∧ p.2 :: out' = out := by
  rw [remapLines_cons, except_bind_eq_ok]
  refine exists_congr fun p => and_congr_right fun _ => except_bind_eq_ok.trans ?_
  exact exists_congr fun out' => and_congr_right fun _ => ⟨Except.ok.inj, congrArg Except.ok⟩

/-- Once lines are accepted, the version is known to those that follow. -/
theorem remapLines_append {number : ℕ} {version : Option Version} {lines : List (List Char)}
    {out : List String} (accepted : remapLines ix number version lines = .ok out) :
    ∃ v, ∀ more out', remapLines ix (number + lines.length) (some v) more = .ok out' →
      remapLines ix number version (lines ++ more) = .ok (out ++ out') := by
  induction lines generalizing number version out with
  | nil =>
    cases version with
    | none => exact nomatch accepted
    | some v =>
      obtain rfl := Except.ok.inj accepted
      exact ⟨v, fun more out' done => done⟩
  | cons line lines ih =>
    obtain ⟨p, first, out, others, rfl⟩ := remapLines_cons_eq_ok.mp accepted
    obtain ⟨v, more⟩ := ih others
    refine ⟨v, fun lines' out' done => remapLines_cons_eq_ok.mpr ⟨p, first, _, ?_, rfl⟩⟩
    rw [List.length_cons, ← Nat.add_assoc, Nat.add_right_comm] at done
    exact more lines' out' done

/-- A declaration that every version accepts may follow any accepted access widener. -/
theorem remap_append {front : String} {written : Bytes}
    (accepted : remap ix (bytesOf front) = .ok written) {tokens new : List String}
    (some : tokens ≠ []) (solid : ∀ token ∈ tokens, IsToken token)
    (renamed : ∀ v, remapDeclaration ix v tokens = .ok new) :
    remap ix (bytesOf (front ++ "\n" ++ tabbed tokens)) =
      .ok (written ++ bytesOf ("\n" ++ tabbed new)) := by
  unfold remap at accepted ⊢
  rw [bytesOf, Utf8.decode?_encode] at accepted ⊢
  obtain ⟨out, lines, written'⟩ := except_bind_eq_ok.mp accepted
  obtain rfl := Except.ok.inj written'
  obtain ⟨v, more⟩ := remapLines_append lines
  have oneLine : '\n' ∉ (tabbed tokens).toList := fun inside =>
    (mem_tabbed solid inside).elim (by decide) fun solid => absurd solid.1 (by decide)
  have split : fields '\n' (front ++ "\n" ++ tabbed tokens).toList =
      fields '\n' front.toList ++ [(tabbed tokens).toList] := by
    rw [String.toList_append, String.toList_append, List.append_assoc, fields_eq_splitOn,
      fields_eq_splitOn]
    exact (List.splitOn_append_cons_self _ _).trans
      (congrArg _ (List.splitOn_eq_singleton oneLine))
  have last := remapLine_tabbed some solid (1 + (fields '\n' front.toList).length) (renamed v)
  have appended := more [(tabbed tokens).toList] [tabbed new]
    (remapLines_cons_eq_ok.mpr ⟨_, last, [], rfl, rfl⟩)
  refine except_bind_eq_ok.mpr ⟨_, split ▸ appended, ?_⟩
  -- A text has a first line, so that the new one is joined to something.
  have nonempty : out ≠ [] := by
    rintro rfl
    obtain ⟨f, fs, cut⟩ := fields_eq_cons '\n' front.toList
    rw [cut] at lines
    obtain ⟨_, _, _, _, written⟩ := remapLines_cons_eq_ok.mp lines
    exact nomatch written
  rw [String.intercalate_append_of_ne_nil nonempty (List.cons_ne_nil _ _),
    String.intercalate_singleton, String.append_assoc]
  unfold bytesOf Utf8.encode
  rw [String.toList_append, List.flatMap_append]
  rfl

end AccessWidener

end ModRemap
