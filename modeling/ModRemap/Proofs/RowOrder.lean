import Mathlib
import ModRemap.Proofs.TinyRows

/-! Rows of version 1 in any order. A class takes from the rows only those that mention it, and each of
its parts only those of one kind, so that their order among each other is all that counts. The order of
the classes is the one in which they are mentioned first. -/

namespace ModRemap.Tiny

open Text

/-! ### What a class takes from the rows -/

namespace Row

/-- The class that a row mentions. -/
def owner : Row → String
  | .ofClass names => names.headD ""
  | .ofMember _ owner _ _ => owner

/-- The names that a row gives to a class. -/
def namesFor? (name : String) : Row → Option (List String)
  | .ofClass names => if names.headD "" = name then some names else none
  | .ofMember .. => none

/-- The member of a kind that a row gives to a class. -/
def memberFor? (kind : MemberKind) (name : String) : Row → Option MemberMapping
  | .ofClass _ => none
  | .ofMember kind' owner descriptor names =>
    if kind' = kind ∧ owner = name then some (.make descriptor names) else none

/-- What a row makes of the class that it mentions, which there may not be yet. -/
def change (width : ℕ) (c : Option ClassMapping) : Row → ClassMapping
  | .ofClass names => (c.getD (.make names)).rename names
  | .ofMember kind owner descriptor names =>
    (c.getD (.make (List.replicate width owner))).add kind (.make descriptor names)

theorem namesFor?_of_ne {row : Row} {name : String} (other : row.owner ≠ name) :
    row.namesFor? name = none := by
  cases row with
  | ofClass names => exact if_neg other
  | ofMember kind owner descriptor names => rfl

theorem memberFor?_of_ne {row : Row} {name : String} (other : row.owner ≠ name) (kind : MemberKind) :
    row.memberFor? kind name = none := by
  cases row with
  | ofClass names => rfl
  | ofMember kind' owner descriptor names => exact if_neg fun same => other same.2

end Row

/-- A class as the rows have it: its last row names it, and without one it is called the same
everywhere. -/
def gathered (width : ℕ) (rows : List Row) (name : String) : ClassMapping where
  names := ((rows.filterMap (Row.namesFor? name)).getLast?.map completeNames).getD
    (List.replicate width name)
  fields := rows.filterMap (Row.memberFor? .field name)
  methods := rows.filterMap (Row.memberFor? .method name)

theorem completeNames_replicate (width : ℕ) (name : String) :
    completeNames (List.replicate width name) = List.replicate width name := by
  cases width with
  | zero => rfl
  | succ width =>
    rw [List.replicate_succ, completeNames, List.map_replicate]
    split_ifs <;> rfl

theorem gathered_of_unmentioned (width : ℕ) {rows : List Row} {name : String}
    (unmentioned : name ∉ rows.map Row.owner) :
    gathered width rows name = .make (List.replicate width name) := by
  have others : ∀ row ∈ rows, row.owner ≠ name := fun row member same =>
    unmentioned (same ▸ List.mem_map_of_mem member)
  have none {α : Type} {f : Row → Option α} (nothing : ∀ row ∈ rows, f row = none) : rows.filterMap f = [] :=
    List.filterMap_eq_nil_iff.mpr nothing
  rw [gathered, none fun row member => Row.namesFor?_of_ne (others row member),
    none fun row member => Row.memberFor?_of_ne (others row member) .field,
    none fun row member => Row.memberFor?_of_ne (others row member) .method, ClassMapping.make,
    completeNames_replicate]
  rfl

theorem gathered_append_of_ne (width : ℕ) (rows : List Row) {row : Row} {name : String}
    (other : row.owner ≠ name) : gathered width (rows ++ [row]) name = gathered width rows name := by
  have nothing {α : Type} {f : Row → Option α} (none : f row = none) :
      (rows ++ [row]).filterMap f = rows.filterMap f := by
    rw [List.filterMap_append, List.filterMap_cons_none none, List.filterMap_nil, List.append_nil]
  rw [gathered, nothing (Row.namesFor?_of_ne other), nothing (Row.memberFor?_of_ne other .field),
    nothing (Row.memberFor?_of_ne other .method), gathered]

/-- What the rows make of a class, which is there once one of them has mentioned it. -/
def stored (width : ℕ) (rows : List Row) (name : String) : Option ClassMapping :=
  if name ∈ rows.map Row.owner then some (gathered width rows name) else none

theorem getD_stored (width : ℕ) (rows : List Row) (name : String) :
    (stored width rows name).getD (.make (List.replicate width name)) = gathered width rows name := by
  rw [stored]
  split_ifs with mentioned
  · rfl
  · exact (gathered_of_unmentioned width mentioned).symm

/-- Names that are set leave nothing of those from before. -/
theorem rename_getD_stored (width : ℕ) (rows : List Row) (name : String) (names : List String) :
    ((stored width rows name).getD (.make names)).rename names =
      (gathered width rows name).rename names := by
  rw [stored]
  split_ifs with mentioned
  · rfl
  · rw [gathered_of_unmentioned width mentioned]
    rfl

theorem gathered_append_self (width : ℕ) (rows : List Row) (row : Row) :
    gathered width (rows ++ [row]) row.owner = row.change width (stored width rows row.owner) := by
  cases row with
  | ofClass names =>
    rw [Row.change, Row.owner, rename_getD_stored]
    simp [gathered, ClassMapping.rename, Row.namesFor?, Row.memberFor?]
  | ofMember kind owner descriptor names =>
    rw [Row.change, Row.owner, getD_stored]
    cases kind <;> simp [gathered, ClassMapping.add, Row.namesFor?, Row.memberFor?]

theorem addRow_eq (width : ℕ) (d : Dict String ClassMapping) (row : Row) :
    addRow width d row = d.insert row.owner (row.change width (d.get? row.owner)) := by
  cases row <;> rfl

theorem stored_append (width : ℕ) (rows : List Row) (row : Row) (name : String) :
    stored width (rows ++ [row]) name = if name = row.owner
      then some (row.change width (stored width rows row.owner)) else stored width rows name := by
  have mentions : name ∈ (rows ++ [row]).map Row.owner ↔ name ∈ rows.map Row.owner ∨ name = row.owner := by
    rw [List.map_append, List.mem_append, List.map_singleton, List.mem_singleton]
  split_ifs with same
  · rw [stored, if_pos (mentions.mpr (.inr same)), same, gathered_append_self]
  · rw [stored, gathered_append_of_ne width rows (Ne.symm same), stored]
    exact if_congr (mentions.trans (or_iff_left same)) rfl rfl

theorem get?_addRows (width : ℕ) (rows : List Row) (name : String) :
    (rows.foldl (addRow width) ∅).get? name = stored width rows name := by
  induction rows using List.reverseRecOn generalizing name with
  | nil => rfl
  | append_singleton rows row ih =>
    rw [List.foldl_append, List.foldl_cons, List.foldl_nil, addRow_eq, Dict.get?_insert, ih row.owner,
      ih name, stored_append]

theorem keys_addRows (width : ℕ) (rows : List Row) :
    (rows.foldl (addRow width) ∅).keys = (rows.map Row.owner).eraseDups := by
  have steps : addRow width = fun d row => d.insert row.owner (row.change width (d.get? row.owner)) :=
    funext fun d => funext fun row => addRow_eq width d row
  rw [steps]
  exact Dict.keys_foldl_insert Row.owner (fun d row => row.change width (d.get? row.owner)) rows

theorem nodup_owners (rows : List Row) : (rows.map Row.owner).eraseDups.Nodup :=
  keys_addRows 0 rows ▸ (rows.foldl (addRow 0) ∅).nodup_keys

/-- The classes in the order in which they are mentioned first, each as the rows have it. -/
theorem values_addRows (width : ℕ) (rows : List Row) :
    (rows.foldl (addRow width) ∅).values = (rows.map Row.owner).eraseDups.map (gathered width rows) := by
  rw [← keys_addRows width]
  refine Dict.values_eq_map fun name mentioned => ?_
  rw [keys_addRows, List.mem_eraseDups] at mentioned
  rw [get?_addRows, stored, if_pos mentioned]

theorem nameAt_replicate {width : ℕ} (wide : 0 < width) (name : String) (ns : ℕ) :
    nameAt (List.replicate width name) ns = name := by
  rw [nameAt, List.head?_replicate, if_neg (Nat.ne_of_gt wide), List.getElem?_replicate]
  split_ifs <;> rfl

/-- The first name of a class is the one by which rows mention it. -/
theorem name_gathered {width : ℕ} (wide : 0 < width) (rows : List Row) (name : String) :
    (gathered width rows name).name 0 = name := by
  have first (names : List String) : nameAt (completeNames names) 0 = names.headD "" := by
    cases names <;> rfl
  rw [ClassMapping.name, gathered]
  cases last : (rows.filterMap (Row.namesFor? name)).getLast? with
  | none => exact nameAt_replicate wide name 0
  | some names =>
    obtain ⟨row, -, taken⟩ := List.mem_filterMap.mp (List.mem_of_getLast? last)
    refine (first names).trans ?_
    cases row with
    | ofMember kind owner descriptor names' => cases taken
    | ofClass names' =>
      obtain ⟨same, given⟩ := Option.ite_none_right_eq_some.mp taken
      exact Option.some.inj given ▸ same

theorem names_gathered_of_unnamed (width : ℕ) {rows : List Row} {name : String}
    (unnamed : ∀ row ∈ rows, row.namesFor? name = none) :
    (gathered width rows name).names = List.replicate width name := by
  rw [gathered, List.filterMap_eq_nil_iff.mpr unnamed]
  rfl

/-! ### Rows of a text -/

/-- The columns of the first line. -/
def header (content : String) : List String := columns ((lines content.toList).headD [])

/-- The rows of a text in their order, each with its columns. Empty lines and comments are none. -/
def rowsOf (content : String) : List (List String) :=
  ((lines content.toList).tail.filter isRow).map columns

/-- The rows of one kind for a class, which are those that start like this. -/
def startingWith (kind name : String) (rows : List (List String)) : List (List String) :=
  rows.filter fun row => row.take 2 = [kind, name]

/-- The classes that the rows mention, once for each row. -/
def mentioned (rows : List (List String)) : List String := rows.map fun row => row.getD 1 ""

/-- The columns with which a row starts. -/
def Row.start : Row → List String
  | .ofClass names => ["CLASS", names.headD ""]
  | .ofMember kind owner _ _ => [word kind, owner]

theorem takeNames_eq_ok {width : ℕ} {cols names : List String} (read : takeNames width cols = .ok names) :
    width ≤ cols.length ∧ names = cols.take width := by
  unfold takeNames at read
  split_ifs at read with short
  exact ⟨Nat.le_of_not_lt short, (Except.ok.inj read).symm⟩

theorem readMember_eq_ok {width : ℕ} {kind : MemberKind} {cols : List String} {row : Row}
    (read : readMember width kind cols = .ok row) :
    ∃ owner descriptor rest names, cols = owner :: rest ∧ row = .ofMember kind owner descriptor names := by
  match cols with
  | [] => cases read
  | [owner] => cases read
  | owner :: descriptor :: rest =>
    obtain ⟨names, -, done⟩ := except_bind_eq_ok.mp read
    exact ⟨owner, descriptor, descriptor :: rest, names, rfl, (Except.ok.inj done).symm⟩

theorem start_readRow {width : ℕ} (wide : 0 < width) {cols : List String} {row : Row}
    (read : readRow width cols = .ok row) : cols.take 2 = row.start := by
  match cols with
  | [] => cases read
  | kind :: cols =>
    rw [readRow] at read
    split_ifs at read with isClass isField isMethod
    · obtain ⟨names, taken, done⟩ := except_bind_eq_ok.mp read
      obtain rfl := Except.ok.inj done
      obtain ⟨long, rfl⟩ := takeNames_eq_ok taken
      obtain ⟨first, rest, rfl⟩ := List.exists_cons_of_length_pos (Nat.lt_of_lt_of_le wide long)
      obtain ⟨width, rfl⟩ := Nat.exists_eq_succ_of_ne_zero (Nat.ne_of_gt wide)
      exact isClass ▸ rfl
    · obtain ⟨owner, descriptor, rest, names, rfl, rfl⟩ := readMember_eq_ok read
      exact isField ▸ rfl
    · obtain ⟨owner, descriptor, rest, names, rfl, rfl⟩ := readMember_eq_ok read
      exact isMethod ▸ rfl

theorem atLine_eq_ok_iff {α : Type} {line : ℕ} {result : Except RowFault α} {a : α} :
    atLine line result = .ok a ↔ result = .ok a := by
  cases result with
  | ok b => rw [atLine, Except.ok.injEq, Except.ok.injEq]
  | error fault => exact ⟨nofun, nofun⟩

theorem snd_numbered (body : List (List Char)) :
    ((numbered body).filter fun p => isRow p.2).map Prod.snd = body.filter isRow := by
  have lines : (numbered body).map Prod.snd = body := by
    rw [numbered, List.map_map]
    exact List.zipIdx_map_fst 0 body
  rw [← lines, List.filter_map, lines]
  rfl

theorem parseRows_eq_ok_iff {namespaces : List String} {body : List (List Char)} {table : MappingTable} :
    parseRows namespaces body = .ok table ↔ ∃ rows,
      List.Forall₂ (fun cols row => readRow namespaces.length cols = .ok row)
        ((body.filter isRow).map columns) rows ∧
      table = ⟨namespaces, (rows.foldl (addRow namespaces.length) ∅).values⟩ := by
  rw [parseRows, except_bind_eq_ok]
  refine exists_congr fun rows => and_congr ?_ ⟨fun done => (Except.ok.inj done).symm, fun same => same ▸ rfl⟩
  rw [except_mapM_eq_ok, ← snd_numbered, List.map_map, List.forall₂_map_left_iff]
  simp only [atLine_eq_ok_iff, Function.comp_apply]

/-- A text of version 1 is read row by row. Where a row stands does not matter to that. -/
theorem parse_eq_ok_iff {content : String} {namespaces : List String}
    (version : header content = "v1" :: namespaces) {table : MappingTable} :
    parse content = .ok table ↔ 2 ≤ namespaces.length ∧ ∃ rows,
      List.Forall₂ (fun cols row => readRow namespaces.length cols = .ok row) (rowsOf content) rows ∧
        table = ⟨namespaces, (rows.foldl (addRow namespaces.length) ∅).values⟩ := by
  rw [rowsOf, ← parseRows_eq_ok_iff]
  unfold header at version
  unfold parse
  dsimp only
  rw [version]
  match namespaces with
  | [] => exact ⟨nofun, fun done => absurd done.1 (by decide)⟩
  | [ns] => exact ⟨nofun, fun done => absurd done.1 (by simp)⟩
  | ns₁ :: ns₂ :: others => exact ⟨fun read => ⟨by simp, read⟩, fun done => done.2⟩

/-! ### Rows in another order -/

/-- How rows are read, one by one. -/
abbrev ReadsRows (width : ℕ) (cols : List (List String)) (rows : List Row) : Prop :=
  List.Forall₂ (fun cols row => readRow width cols = .ok row) cols rows

section

variable {width : ℕ} {cols cols' : List (List String)} {rows rows' : List Row}

/-- What is taken from rows of one kind comes from the rows that start like them. -/
theorem filterMap_eq_of_reads {α : Type} (wide : 0 < width) (reads : ReadsRows width cols rows)
    {kind name : String} {part : Row → Option α} (only : ∀ row, row.start ≠ [kind, name] → part row = none) :
    rows.filterMap part =
      (startingWith kind name cols).filterMap fun cols => (readRow width cols).toOption.bind part := by
  induction reads with
  | nil => rfl
  | @cons col row cols rows here _ ih =>
    have start := start_readRow wide here
    rw [startingWith, List.filter_cons]
    by_cases taken : row.start = [kind, name]
    · have read : (readRow width col).toOption.bind part = part row := by
        rw [here]
        rfl
      rw [if_pos (decide_eq_true (start.trans taken)), List.filterMap_cons, List.filterMap_cons, read, ih,
        startingWith]
    · rw [if_neg (by rwa [decide_eq_true_eq, start]), List.filterMap_cons_none (only row taken), ih,
        startingWith]

theorem namesFor?_of_start {name : String} (row : Row) (other : row.start ≠ ["CLASS", name]) :
    row.namesFor? name = none := by
  cases row with
  | ofClass names => exact if_neg fun same => other (by rw [Row.start, same])
  | ofMember kind owner descriptor names => rfl

/-- A class is the same when the rows of each kind that mention it are. -/
theorem gathered_congr (wide : 0 < width) (reads : ReadsRows width cols rows)
    (reads' : ReadsRows width cols' rows') {name : String}
    (order : ∀ kind ∈ ["CLASS", "FIELD", "METHOD"],
      startingWith kind name cols' = startingWith kind name cols) :
    gathered width rows' name = gathered width rows name := by
  have same {α : Type} {kind : String} (known : kind ∈ ["CLASS", "FIELD", "METHOD"]) {part : Row → Option α}
      (only : ∀ row : Row, row.start ≠ [kind, name] → part row = none) :
      rows'.filterMap part = rows.filterMap part := by
    rw [filterMap_eq_of_reads wide reads' only, order kind known, filterMap_eq_of_reads wide reads only]
  have members (kind : MemberKind) :
      ∀ row : Row, row.start ≠ [word kind, name] → row.memberFor? kind name = none := by
    rintro (names | ⟨kind', owner, descriptor, names⟩) other
    · rfl
    · exact if_neg fun same => other (by rw [Row.start, same.1, same.2])
  rw [gathered, same (by decide) namesFor?_of_start, same (by decide) (members .field),
    same (by decide) (members .method), gathered]

theorem mentioned_eq_of_reads (wide : 0 < width) (reads : ReadsRows width cols rows) :
    mentioned cols = rows.map Row.owner := by
  induction reads with
  | nil => rfl
  | @cons col row cols rows here _ ih =>
    have second : col.getD 1 "" = row.owner := by
      have start := start_readRow wide here
      rw [List.getD_eq_getElem?_getD, ← List.getElem?_take_of_lt (by decide : 1 < 2), start]
      cases row <;> rfl
    rw [mentioned, List.map_cons, second, List.map_cons, ← ih, mentioned]

end

/-- Rows may come in any order, as long as of the rows of one class and one kind none overtakes another.
The classes are the same, in the order in which they are mentioned first; one without a row of its own is
called in every namespace what its members call it. -/
theorem parse_reordered {content content' : String} {namespaces : List String} {table : MappingTable}
    (version : header content = "v1" :: namespaces) (version' : header content' = header content)
    (perm : (rowsOf content').Perm (rowsOf content))
    (order : ∀ kind ∈ ["CLASS", "FIELD", "METHOD"], ∀ name,
      startingWith kind name (rowsOf content') = startingWith kind name (rowsOf content))
    (read : parse content = .ok table) :
    ∃ table', parse content' = .ok table' ∧ table'.namespaces = table.namespaces ∧
      table'.classes.Perm table.classes ∧
      table.classes.map (·.name 0) = (mentioned (rowsOf content)).eraseDups ∧
      table'.classes.map (·.name 0) = (mentioned (rowsOf content')).eraseDups ∧
      ∀ c ∈ table.classes, startingWith "CLASS" (c.name 0) (rowsOf content) = [] →
        ∀ ns, c.name ns = c.name 0 := by
  obtain ⟨two, rows, reads, rfl⟩ := (parse_eq_ok_iff version).mp read
  have wide : 0 < namespaces.length := Nat.lt_of_lt_of_le Nat.zero_lt_two two
  obtain ⟨rows', reads', shuffled⟩ := List.perm_comp_forall₂ perm reads
  have names (rows : List Row) (cols : List (List String)) (reads : ReadsRows namespaces.length cols rows) :
      ((rows.foldl (addRow namespaces.length) ∅).values).map (·.name 0) = (mentioned cols).eraseDups := by
    rw [values_addRows, List.map_map, mentioned_eq_of_reads wide reads]
    exact List.map_id'' (name_gathered wide rows) _
  refine ⟨⟨namespaces, (rows'.foldl (addRow namespaces.length) ∅).values⟩,
    (parse_eq_ok_iff (version'.trans version)).mpr ⟨two, rows', reads', rfl⟩, rfl, ?_,
    names rows _ reads, names rows' _ reads', fun c member unnamed ns => ?_⟩
  · have same : gathered namespaces.length rows' = gathered namespaces.length rows :=
      funext fun name => gathered_congr wide reads reads' fun kind known => order kind known name
    dsimp only
    rw [values_addRows, values_addRows, same]
    refine ((List.perm_ext_iff_of_nodup (nodup_owners rows') (nodup_owners rows)).mpr fun name => ?_).map _
    rw [List.mem_eraseDups, List.mem_eraseDups, (shuffled.map Row.owner).mem_iff]
  · dsimp only at member
    rw [values_addRows] at member
    obtain ⟨name, -, rfl⟩ := List.mem_map.mp member
    rw [name_gathered wide] at unnamed ⊢
    have nothing : rows.filterMap (Row.namesFor? name) = [] := by
      rw [filterMap_eq_of_reads wide reads namesFor?_of_start, unnamed, List.filterMap_nil]
    rw [ClassMapping.name, names_gathered_of_unnamed _ (List.filterMap_eq_nil_iff.mp nothing),
      nameAt_replicate wide]

/-- The members of one class stand in front of it, and those of another one have no class of their own. -/
theorem parse_reordered_members :
    let namespaces := ["a", "b"]
    let content := "v1\ta\tb\nCLASS\tC\tD\nFIELD\tC\tI\tf\tg\nMETHOD\tE\t()V\tm\tn\n"
    let content' := "v1\ta\tb\nMETHOD\tE\t()V\tm\tn\n# C\nFIELD\tC\tI\tf\tg\n\nCLASS\tC\tD"
    let c : ClassMapping := ⟨["C", "D"], [⟨"I", ["f", "g"]⟩], []⟩
    let e : ClassMapping := ⟨["E", "E"], [], [⟨"()V", ["m", "n"]⟩]⟩
    header content = "v1" :: namespaces ∧ header content' = header content ∧
      (rowsOf content').Perm (rowsOf content) ∧
      parse content = .ok ⟨namespaces, [c, e]⟩ ∧ parse content' = .ok ⟨namespaces, [e, c]⟩ ∧
      [e, c].Perm [c, e] ∧ e.name 1 = e.name 0 := by
  intro namespaces content content' c e
  have read : parse content = .ok ⟨namespaces, [c, e]⟩ := by decide +kernel
  have read' : parse content' = .ok ⟨namespaces, [e, c]⟩ := by decide +kernel
  have rows : rowsOf content = [["CLASS", "C", "D"], ["FIELD", "C", "I", "f", "g"],
      ["METHOD", "E", "()V", "m", "n"]] := by decide +kernel
  have rows' : rowsOf content' = [["METHOD", "E", "()V", "m", "n"], ["FIELD", "C", "I", "f", "g"],
      ["CLASS", "C", "D"]] := by decide +kernel
  have version : header content = "v1" :: namespaces := by decide +kernel
  have version' : header content' = header content := by decide +kernel
  have perm : (rowsOf content').Perm (rowsOf content) := by
    rw [rows, rows']
    decide
  have order : ∀ kind ∈ ["CLASS", "FIELD", "METHOD"], ∀ name,
      startingWith kind name (rowsOf content') = startingWith kind name (rowsOf content) := by
    intro kind known name
    rw [rows, rows']
    simp only [List.mem_cons, List.not_mem_nil, or_false] at known
    rcases known with rfl | rfl | rfl <;> simp [startingWith, List.filter_cons]
  obtain ⟨table', again, -, classes, -, -, unnamed⟩ :=
    parse_reordered version version' perm order read
  obtain rfl := Except.ok.inj (read'.symm.trans again)
  have none : startingWith "CLASS" (e.name 0) (rowsOf content) = [] := by
    rw [rows]
    decide
  exact ⟨version, version', perm, read, read', classes, unnamed e (by simp) none 1⟩

end ModRemap.Tiny
