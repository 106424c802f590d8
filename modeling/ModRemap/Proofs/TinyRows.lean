import Mathlib
import ModRemap.Proofs.Dict
import ModRemap.Proofs.JarEntries
import ModRemap.Proofs.WrittenTables

/-! Version 1 of the format is read as the table that is written down. Rows may come in any order, so
that a class is looked up by its name; here each class stands in front of its members. -/

namespace ModRemap.Tiny

open Text

/-! ### Version 1 -/

theorem takeNames_of_length {width : Nat} {names : List String} (wide : names.length = width) :
    takeNames width names = .ok names := by
  rw [takeNames, if_neg (Nat.not_lt.mpr (Nat.le_of_eq wide.symm)), List.take_of_length_le (Nat.le_of_eq wide)]

/-- The rows of a class. -/
def WrittenClass.rowsRead (w : WrittenClass) : List Row :=
  .ofClass w.names :: w.members.map fun m =>
    .ofMember m.kind (w.names.headD "") m.descriptor m.names

theorem readRow_class {width : Nat} {names : List String} (wide : names.length = width) :
    readRow width ("CLASS" :: names) = .ok (.ofClass names) := by
  rw [readRow, if_pos rfl, takeNames_of_length wide]
  rfl

theorem readRow_member {width : Nat} {m : WrittenMember} (wide : m.names.length = width)
    (owner : String) :
    readRow width (m.columns₁ owner) = .ok (.ofMember m.kind owner m.descriptor m.names) := by
  obtain ⟨kind, descriptor, names, passed⟩ := m
  cases kind <;> simp [WrittenMember.columns₁, word, readRow, readMember, takeNames_of_length wide]

theorem forall₂_zipIdx {α β : Type} {R : α → β → Prop} {as : List α} {bs : List β}
    (h : List.Forall₂ R as bs) (k : Nat) :
    List.Forall₂ (fun p b => R p.1 b) (as.zipIdx k) bs := by
  induction h generalizing k with
  | nil => exact .nil
  | cons here _ ih => exact .cons here (ih (k + 1))

theorem readRows {width : Nat} {body : List (List Char)} {rows : List Row}
    (only : ∀ l ∈ body, isRow l = true)
    (reads : List.Forall₂ (fun l r => readRow width (columns l) = .ok r) body rows) :
    ((numbered body).filter fun p => isRow p.2).mapM
      (fun p => atLine p.1 (readRow width (columns p.2))) = .ok rows := by
  have all : ∀ p ∈ numbered body, isRow p.2 = true := by
    intro p member
    obtain ⟨q, listed, rfl⟩ := List.mem_map.mp member
    exact only _ (List.fst_mem_of_mem_zipIdx listed)
  rw [List.filter_eq_self.mpr all, except_mapM_eq_ok, numbered, List.forall₂_map_left_iff]
  exact (forall₂_zipIdx reads 0).imp fun p r h => congrArg (atLine (p.2 + 2)) h

theorem entries_insert_last {ν : Type} {d : Dict String ν} {es : List (String × ν)} {k : String}
    {v : ν} (last : d.entries = es ++ [(k, v)]) (v' : ν) :
    (d.insert k v').entries = es ++ [(k, v')] := by
  have put_last {es : List (String × ν)} (fresh : k ∉ es.map Prod.fst) :
      Dict.put k v' (es ++ [(k, v)]) = es ++ [(k, v')] := by
    induction es with
    | nil => simp [Dict.put]
    | cons p es ih =>
      obtain ⟨other, fresh⟩ := not_or.mp (mt List.mem_cons.mpr fresh)
      rw [List.cons_append, Dict.put, if_neg (Ne.symm other), ih fresh, List.cons_append]
  have nodup := d.nodup_keys
  rw [last, List.map_append, List.nodup_append_comm] at nodup
  show Dict.put k v' d.entries = _
  rw [last]
  exact put_last (List.nodup_cons.mp nodup).1

/-- The member rows of a class add to it, which is the last one so far. -/
theorem addRow_members (width : Nat) (owner : String) (ms : List WrittenMember)
    {d : Dict String ClassMapping} {es : List (String × ClassMapping)} {c : ClassMapping}
    (last : d.entries = es ++ [(owner, c)]) :
    ((ms.map fun m => Row.ofMember m.kind owner m.descriptor m.names).foldl (addRow width) d).entries =
      es ++ [(owner, ms.foldl (fun c m => c.add m.kind (.make m.descriptor m.names)) c)] := by
  induction ms generalizing d c with
  | nil => exact last
  | cons m ms ih =>
    rw [List.map_cons, List.foldl_cons, List.foldl_cons]
    refine ih ?_
    have found : d.get? owner = some c :=
      (Dict.get?_eq_some_iff d owner c).mpr (last ▸ List.mem_append_right _ List.mem_cons_self)
    show (d.insert owner (((d.get? owner).getD _).add _ _)).entries = _
    rw [found]
    exact entries_insert_last last _

theorem addRow_class (width : Nat) (w : WrittenClass) {d : Dict String ClassMapping}
    (fresh : d.contains (w.names.headD "") = false) :
    (w.rowsRead.foldl (addRow width) d).entries = d.entries ++ [(w.names.headD "", w.read)] := by
  have absent : d.get? (w.names.headD "") = none := by
    by_contra there
    obtain ⟨c, found⟩ := Option.ne_none_iff_exists'.mp there
    exact ne_true_of_eq_false fresh ((Dict.contains_iff d _).mpr ⟨c, found⟩)
  have first : (addRow width d (.ofClass w.names)).entries =
      d.entries ++ [(w.names.headD "", .make w.names)] := by
    rw [addRow, Dict.update, absent]
    exact Dict.entries_insert_new fresh _
  exact addRow_members width (w.names.headD "") w.members first

theorem addRow_classes (width : Nat) (ws : List WrittenClass) {d : Dict String ClassMapping}
    (distinct : (d.keys ++ ws.map fun w => w.names.headD "").Nodup) :
    ((ws.flatMap WrittenClass.rowsRead).foldl (addRow width) d).entries =
      d.entries ++ ws.map fun w => (w.names.headD "", w.read) := by
  induction ws generalizing d with
  | nil => exact (List.append_nil _).symm
  | cons w ws ih =>
    have fresh : d.contains (w.names.headD "") = false := by
      refine Bool.eq_false_iff.mpr fun there => ?_
      exact (List.nodup_append.mp distinct).2.2 _ (List.contains_iff_mem.mp there) _ List.mem_cons_self rfl
    have added := addRow_class width w fresh
    have keys : (w.rowsRead.foldl (addRow width) d).keys = d.keys ++ [w.names.headD ""] := by
      rw [Dict.keys, added, List.map_append]
      rfl
    rw [List.flatMap_cons, List.foldl_append, ih, added, List.append_assoc]
    · rfl
    · rw [keys, List.append_assoc]
      exact distinct

/-! ### Whole files -/

theorem parse_of_header₁ {content : String} {header : List Char} {body : List (List Char)}
    {namespaces : List String} (split : lines content.toList = header :: body)
    (cols : columns header = "v1" :: namespaces) (wide : 2 ≤ namespaces.length) :
    parse content = parseRows namespaces body := by
  obtain ⟨ns₁, ns₂, others, rfl⟩ := exists_two wide
  simp [parse, split, cols]

theorem lines_rows {rows : List (List String)} (plain : ∀ r ∈ rows, ∀ col ∈ r, Plain col) :
    lines (unlines (rows.map row)).toList = rows.map fun r => (row r).toList := by
  rw [lines_unlines, List.map_map]
  · exact List.map_congr_left fun r member => bare_row (plain r member)
  · intro l member inside
    obtain ⟨r, listed, rfl⟩ := List.mem_map.mp member
    exact (mem_row (plain r listed) inside).2 rfl

theorem isRow_row {kind : String} {cols : List String} (more : cols ≠ []) (c : Char) (s : List Char)
    (start : kind.toList = c :: s) (row' : c ≠ '#') : isRow (row (kind :: cols)).toList = true := by
  rw [toList_row_cons kind more, start, List.cons_append, isRow, List.isEmpty_cons, List.head?_cons]
  simp [row']

theorem rows_of_fits {t : MappingTable} (regular : t.Regular) (plain : t.PlainNames) {w : WrittenClass}
    (fits : w.Fits t) :
    ∀ r ∈ w.rows₁, isRow (row r).toList = true ∧ ∀ col ∈ r, Plain col := by
  obtain ⟨names, inner⟩ := fits.plain plain
  have owner : Plain (w.names.headD "") := by
    cases all : w.names with
    | nil => simp [Plain]
    | cons first _ => exact names first (all ▸ List.mem_cons_self)
  have nonempty : w.names ≠ [] := by
    intro none
    have few := fits.wide
    rw [none, List.length_nil] at few
    have wide := regular.wide
    omega
  intro r member
  rcases List.mem_cons.mp member with rfl | member
  · exact ⟨isRow_row nonempty 'C' _ rfl (by decide), List.forall_mem_cons.mpr ⟨by simp [Plain], names⟩⟩
  · obtain ⟨m, listed, rfl⟩ := List.mem_map.mp member
    refine ⟨?_, ?_⟩
    · unfold WrittenMember.columns₁
      cases m.kind
      · exact isRow_row (List.cons_ne_nil _ _) 'F' _ rfl (by decide)
      · exact isRow_row (List.cons_ne_nil _ _) 'M' _ rfl (by decide)
    · refine List.forall_mem_cons.mpr ⟨?_, List.forall_mem_cons.mpr ⟨owner,
        List.forall_mem_cons.mpr ⟨(fits.members m listed).2, inner m listed⟩⟩⟩
      cases m.kind <;> simp [word, Plain]

theorem reads_of_fits {t : MappingTable} (regular : t.Regular) (plain : t.PlainNames) {w : WrittenClass}
    (fits : w.Fits t) :
    List.Forall₂ (fun r read => readRow t.namespaces.length (columns (row r).toList) = .ok read)
      w.rows₁ w.rowsRead := by
  have cut : ∀ r ∈ w.rows₁, r ≠ [] → columns (row r).toList = r := fun r member some =>
    columns_row some (rows_of_fits regular plain fits r member).2
  refine .cons ?_ ?_
  · rw [cut _ List.mem_cons_self (List.cons_ne_nil _ _)]
    exact readRow_class fits.wide
  · rw [List.forall₂_map_left_iff, List.forall₂_map_right_iff, List.forall₂_same]
    intro m member
    rw [cut _ (List.mem_cons_of_mem _ (List.mem_map_of_mem member)) (List.cons_ne_nil _ _)]
    exact readRow_member (fits.members m member).1 _

theorem forall₂_flatMap {α β γ : Type} {R : β → γ → Prop} {f : α → List β} {g : α → List γ} {as : List α}
    (each : ∀ a ∈ as, List.Forall₂ R (f a) (g a)) : List.Forall₂ R (as.flatMap f) (as.flatMap g) := by
  induction as with
  | nil => exact .nil
  | cons a as ih =>
    obtain ⟨first, others⟩ := List.forall_mem_cons.mp each
    rw [List.flatMap_cons, List.flatMap_cons]
    exact List.rel_append first (ih others)

theorem parse_version₁ {t : MappingTable} (regular : t.Regular) (plain : t.PlainNames)
    (distinct : (t.classes.map fun c => c.names.headD "").Nodup) {ws : List WrittenClass}
    (stand : List.Forall₂ (fun c w => WrittenClass.Stands c w) t.classes ws) :
    parse (version₁ t.namespaces ws) = .ok t := by
  have fits : ∀ w ∈ ws, w.Fits t := by
    intro w member
    obtain ⟨c, listed, stands⟩ := exists_of_mem_right stand member
    exact fits_of_stands regular listed stands
  have rows : ∀ r ∈ ws.flatMap WrittenClass.rows₁,
      isRow (row r).toList = true ∧ ∀ col ∈ r, Plain col := by
    intro r member
    obtain ⟨w, listed, member⟩ := List.mem_flatMap.mp member
    exact rows_of_fits regular plain (fits w listed) r member
  have header : ∀ col ∈ "v1" :: t.namespaces, Plain col :=
    List.forall_mem_cons.mpr ⟨by simp [Plain], regular.namespaces⟩
  have split := lines_rows (List.forall_mem_cons.mpr ⟨header, fun r member => (rows r member).2⟩)
  have reads : List.Forall₂ (fun l r => readRow t.namespaces.length (columns l) = .ok r)
      ((ws.flatMap WrittenClass.rows₁).map fun r => (row r).toList) (ws.flatMap WrittenClass.rowsRead) := by
    rw [List.forall₂_map_left_iff]
    exact forall₂_flatMap fun w member => reads_of_fits regular plain (fits w member)
  have only : ∀ l ∈ (ws.flatMap WrittenClass.rows₁).map fun r => (row r).toList, isRow l = true := by
    intro l member
    obtain ⟨r, listed, rfl⟩ := List.mem_map.mp member
    exact (rows r listed).1
  have heads : (ws.map fun w => w.names.headD "").Nodup := by
    rw [show ws.map (fun w => w.names.headD "") = t.classes.map fun c => c.names.headD "" from ?_]
    · exact distinct
    · rw [← List.forall₂_eq_eq_eq, List.forall₂_map_left_iff, List.forall₂_map_right_iff]
      refine stand.flip.imp fun w c stands => ?_
      rw [List.headD_eq_head?_getD, List.headD_eq_head?_getD, stands.names.1]
  rw [version₁, parse_of_header₁ split (columns_row (List.cons_ne_nil _ _) header) regular.wide, parseRows,
    readRows only reads]
  have entries := addRow_classes t.namespaces.length ws (d := ∅) heads
  show Except.ok (⟨t.namespaces, Dict.values _⟩ : MappingTable) = .ok t
  rw [Dict.values, entries]
  show Except.ok (⟨t.namespaces, (ws.map _).map _⟩ : MappingTable) = .ok t
  rw [List.map_map]
  exact congrArg (fun classes => Except.ok (MappingTable.mk t.namespaces classes)) (map_read regular stand)

end ModRemap.Tiny
