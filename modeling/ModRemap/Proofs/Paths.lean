import Mathlib
import ModRemap.Store.Path

/-! Paths as text: how a path goes on, and the way to the directories above it. -/

namespace ModRemap

namespace Text

theorem fields_eq_splitOn (sep : Char) (s : List Char) : fields sep s = s.splitOn sep := by
  induction s with
  | nil => exact (List.splitOn_nil sep).symm
  | cons c s ih =>
    rw [fields, List.splitOn_cons_eq_if_modifyHead, ih]
    simp only [beq_iff_eq]
    split_ifs
    · rfl
    · obtain ⟨f, fs, pieces⟩ := List.exists_cons_of_ne_nil (List.splitOn_ne_nil sep s)
      rw [pieces]
      rfl

theorem not_mem_of_mem_fields {sep : Char} {s f : List Char} (member : f ∈ fields sep s) :
    sep ∉ f := by
  induction s generalizing f with
  | nil =>
    rw [List.mem_singleton.mp member]
    exact List.not_mem_nil
  | cons c s ih =>
    unfold fields at member
    split_ifs at member with same
    · rcases List.mem_cons.mp member with rfl | later
      · exact List.not_mem_nil
      · exact ih later
    · split at member
      · rw [List.mem_singleton.mp member, List.mem_singleton]
        exact Ne.symm same
      · rename_i pieces
        rcases List.mem_cons.mp member with rfl | later
        · rw [List.mem_cons, not_or]
          exact ⟨Ne.symm same, ih (pieces ▸ List.mem_cons_self)⟩
        · exact ih (pieces ▸ List.mem_cons_of_mem _ later)

/-- What stands after the last separator can be added to. -/
theorem fields_append (sep : Char) (u : List Char) :
    ∃ front last, ∀ v, sep ∉ v → fields sep (u ++ v) = front ++ [last ++ v] := by
  have one (v : List Char) (plain : sep ∉ v) : fields sep v = [v] := by
    induction v with
    | nil => rfl
    | cons c v ih =>
      rw [List.mem_cons, not_or] at plain
      rw [fields, if_neg (Ne.symm plain.1), ih plain.2]
  induction u with
  | nil => exact ⟨[], [], one⟩
  | cons c u ih =>
    obtain ⟨front, last, spec⟩ := ih
    by_cases same : c = sep
    · refine ⟨[] :: front, last, fun v plain => ?_⟩
      rw [List.cons_append, fields, if_pos same, spec v plain, List.cons_append]
    · rcases front with _ | ⟨f, front⟩
      · refine ⟨[], c :: last, fun v plain => ?_⟩
        rw [List.cons_append, fields, if_neg same, spec v plain]
        rfl
      · refine ⟨(c :: f) :: front, last, fun v plain => ?_⟩
        rw [List.cons_append, fields, if_neg same, spec v plain]
        rfl

end Text

namespace Path

theorem steps_append (u : List Char) : ∃ front last, ∀ (path : String) (v : List Char), '/' ∉ v →
    v ≠ [] → path.toList = u ++ v → steps path = front ++ [String.ofList (last ++ v)] := by
  obtain ⟨front, last, spec⟩ := Text.fields_append '/' u
  refine ⟨(front.map String.ofList).filter (· ≠ ""), last, fun path v plain full split => ?_⟩
  have kept : String.ofList (last ++ v) ≠ "" := by
    intro empty
    have none : last ++ v = [] := by
      rw [← String.toList_ofList (l := last ++ v), empty]
      rfl
    exact full (List.append_eq_nil_iff.mp none).2
  rw [steps, pieces, split, spec v plain, List.map_append, List.filter_append, List.map_singleton,
    List.filter_singleton, decide_eq_true kept]
  rfl

theorem pieces_ofPieces {ps : List String} (some : ps ≠ []) (clear : ∀ p ∈ ps, '/' ∉ p.toList) :
    pieces (ofPieces ps) = ps := by
  have joined : (ofPieces ps).toList = ['/'].intercalate (ps.map String.toList) :=
    String.toList_intercalate
  rw [pieces, joined, Text.fields_eq_splitOn, List.splitOn_intercalate]
  · rw [List.map_map]
    exact List.map_id'' (fun p => String.ofList_toList) ps
  · intro l member
    obtain ⟨p, there, rfl⟩ := List.mem_map.mp member
    exact clear p there
  · exact fun empty => some (List.map_eq_nil_iff.mp empty)

theorem not_mem_of_mem_pieces {path p : String} (member : p ∈ pieces path) : '/' ∉ p.toList := by
  obtain ⟨f, there, rfl⟩ := List.mem_map.mp member
  rw [String.toList_ofList]
  exact Text.not_mem_of_mem_fields there

/-- The way to a directory above is the first part of the whole way. -/
theorem steps_ancestor {path above : String} (member : above ∈ ancestors path) :
    steps above <+: steps path := by
  obtain ⟨n, _, chosen⟩ := List.mem_filterMap.mp member
  dsimp only at chosen
  split_ifs at chosen with named
  obtain rfl := Option.some.inj chosen
  have front : (upToName (pieces path)).take n <+: pieces path :=
    (List.take_prefix n _).trans (List.rdropWhile_prefix _ (pieces path))
  have some : (upToName (pieces path)).take n ≠ [] := by
    intro empty
    rw [empty] at named
    exact nomatch named
  rw [steps, steps, pieces_ofPieces some fun p there => not_mem_of_mem_pieces (front.subset there)]
  exact front.filter _

theorem isName_of_long {s : String} (long : 1 < s.toList.length) : isName s = true := by
  unfold isName
  rw [Bool.and_eq_true, decide_eq_true_eq, decide_eq_true_eq]
  constructor
  · rintro rfl
    exact absurd long (by decide)
  · rintro rfl
    exact absurd long (by decide)

/-- The paths above a path that ends in a name are made of what stands before it. -/
theorem ancestors_of_pieces {path last : String} {front : List String}
    (cut : pieces path = front ++ [last]) (name : isName last = true) :
    ancestors path = (List.range (front.length + 1)).reverse.filterMap fun n =>
      if (front.take n).getLast?.any isName then some (ofPieces (front.take n)) else none := by
  have own : upToName (pieces path) = pieces path := by
    rw [upToName, cut, List.reverse_append, List.reverse_singleton, List.singleton_append,
      List.dropWhile_cons_of_neg (by rw [name]; decide), List.reverse_cons, List.reverse_reverse]
  unfold ancestors
  dsimp only
  rw [own, cut, List.length_append, List.length_singleton]
  refine List.filterMap_congr fun n member => ?_
  have few : n ≤ front.length := Nat.le_of_lt_succ (List.mem_range.mp (List.mem_reverse.mp member))
  rw [List.take_append_of_le_length few]

theorem isAbsolute_of_append {path : String} {u v : List Char} (clear : '/' ∉ v)
    (split : path.toList = u ++ v) : isAbsolute path = true ↔ u.head? = some '/' := by
  rw [isAbsolute, starts_iff, split]
  cases u with
  | nil =>
    refine ⟨fun ⟨rest, absolute⟩ => absurd ?_ clear, nofun⟩
    rw [show v = '/' :: rest from absolute]
    exact List.mem_cons_self
  | cons c u =>
    rw [List.head?_cons, Option.some.injEq]
    constructor
    · rintro ⟨rest, absolute⟩
      exact (List.cons.inj absolute).1
    · rintro rfl
      exact ⟨u ++ v, rfl⟩

/-- Paths that differ in their last names only are in one directory. -/
theorem parent_append (u : List Char) : ∃ directory, ∀ (path : String) (v : List Char), '/' ∉ v →
    1 < v.length → path.toList = u ++ v → parent path = directory := by
  obtain ⟨front, last, spec⟩ := Text.fields_append '/' u
  refine ⟨((List.range ((front.map String.ofList).length + 1)).reverse.filterMap fun n =>
    if ((front.map String.ofList).take n).getLast?.any isName then
      some (ofPieces ((front.map String.ofList).take n)) else none).headD
    (if u.head? = some '/' then "/" else ""), fun path v clear long split => ?_⟩
  have cut : pieces path = front.map String.ofList ++ [String.ofList (last ++ v)] := by
    rw [pieces, split, spec v clear, List.map_append, List.map_singleton]
  have long' : 1 < (String.ofList (last ++ v)).toList.length := by
    rw [String.toList_ofList, List.length_append]
    omega
  rw [parent, ancestors_of_pieces cut (isName_of_long long')]
  simp only [isAbsolute_of_append clear split]

theorem isAbsolute_append {s : String} (full : s ≠ "") (t : String) :
    isAbsolute (s ++ t) = isAbsolute s := by
  unfold isAbsolute starts
  rw [String.toList_append, show "/".toList = ['/'] from rfl]
  cases h : s.toList with
  | nil => exact absurd (String.toList_eq_nil_iff.mp h) full
  | cons c l =>
    simp only [List.cons_append, Text.dropStart?]
    split_ifs <;> rfl

/-- A path that is joined goes on as its right side does. -/
theorem join_append (left : String) {s : String} (full : s ≠ "") (t : String) :
    join left (s ++ t) = join left s ++ t := by
  unfold join
  rw [isAbsolute_append full]
  split_ifs
  · rfl
  · exact (String.append_assoc ..).symm
  · exact (String.append_assoc ..).symm

theorem join_ne_empty (left : String) {s : String} (full : s ≠ "") : join left s ≠ "" := by
  have more (t : String) : t ++ s ≠ "" := fun empty => full (String.append_eq_empty_iff.mp empty).2
  unfold join
  split_ifs
  · exact full
  · exact more left
  · exact more (left ++ "/")

end Path

end ModRemap
