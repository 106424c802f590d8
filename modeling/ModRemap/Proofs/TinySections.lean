import Mathlib
import ModRemap.Proofs.TinyRows

/-! Version 2 of the format is read as the table that is written down, with lines between that say nothing
about it, and with names that are escaped or not. -/

namespace ModRemap.Tiny

open Text

theorem parse_of_header₂ {content : String} {header : List Char} {body : List (List Char)}
    {namespaces : List String} {minor : String} (split : lines content.toList = header :: body)
    (cols : columns header = "tiny" :: "2" :: minor :: namespaces) (wide : 2 ≤ namespaces.length) :
    parse content = parseSections namespaces body := by
  obtain ⟨ns₁, ns₂, others, rfl⟩ := exists_two wide
  simp [parse, split, cols]

/-- One line of version 2; a blank one says nothing. -/
def stepLine (width : Nat) (s : Sections) (line : List Char) : Except RowFault Sections :=
  if line.all isBlank then .ok s else s.readLine width line

theorem foldlM_numbered {width : Nat} {body : List (List Char)} {s s' : Sections}
    (steps : body.foldlM (stepLine width) s = .ok s') (k : Nat) :
    (((body.zipIdx k).map fun p => (p.2 + 2, p.1)).filter fun p => !(p.2.all isBlank)).foldlM
      (fun s p => atLine p.1 (Sections.readLine width s p.2)) s = .ok s' := by
  induction body generalizing k s with
  | nil => exact congrArg _ (Except.ok.inj steps)
  | cons line body ih =>
    rw [List.foldlM_cons, stepLine] at steps
    rw [List.zipIdx_cons, List.map_cons]
    split_ifs at steps with blank
    · rw [List.filter_cons_of_neg (by simpa using blank)]
      exact ih steps (k + 1)
    · rw [List.filter_cons_of_pos (by simpa using blank), List.foldlM_cons]
      cases read : s.readLine width line with
      | error fault =>
        rw [read] at steps
        cases steps
      | ok s₁ =>
        rw [read] at steps
        exact ih steps (k + 1)

theorem parseSections_of_steps {namespaces : List String} {body : List (List Char)} {s : Sections}
    (steps : body.foldlM (stepLine namespaces.length) {} = .ok s) :
    parseSections namespaces body = .ok ⟨namespaces, s.classes⟩ := by
  rw [parseSections, numbered, foldlM_numbered steps 0]
  rfl

/-- A line stands as deep as there are tabs in front of it. -/
theorem depth_replicate (depth : Nat) {line : List Char} (start : line.head? ≠ some '\t') :
    ((List.replicate depth '\t' ++ line).takeWhile (· = '\t')).length = depth ∧
      (List.replicate depth '\t' ++ line).drop depth = line := by
  have none : line.takeWhile (· = '\t') = [] := by
    cases line with
    | nil => rfl
    | cons c line =>
      have other : c ≠ '\t' := fun same => start (congrArg some same)
      exact List.takeWhile_cons_of_neg (by simpa using other)
  constructor
  · rw [List.takeWhile_append_of_pos fun c member => decide_eq_true (List.eq_of_mem_replicate member), none,
      List.append_nil, List.length_replicate]
  · exact List.drop_left' List.length_replicate

section

variable (width : Nat) (s : Sections) {line : List Char} (start : line.head? ≠ some '\t')
  {head : String} {cols : List String} (cut : columns line = head :: cols)

include start cut

theorem readLine_class (isClass : head = "c") :
    s.readLine width (List.replicate 0 '\t' ++ line) = (do
      let names ← s.readNames width cols
      return { s with done := s.classes, current := some (.make names) }) := by
  obtain ⟨depth, rest⟩ := depth_replicate 0 start
  simp only [Sections.readLine, depth, rest, cut]
  simp [isClass]

theorem readLine_member {kind : MemberKind} (isMember : memberKind? head = some kind) :
    s.readLine width (List.replicate 1 '\t' ++ line) = s.readMember width kind cols := by
  obtain ⟨depth, rest⟩ := depth_replicate 1 start
  simp only [Sections.readLine, depth, rest, cut]
  simp [isMember]

theorem readLine_property (outside : s.current = none) (other : memberKind? head = none) :
    s.readLine width (List.replicate 1 '\t' ++ line) =
      .ok { s with escaped := s.escaped || head = "escaped-names" } := by
  obtain ⟨depth, rest⟩ := depth_replicate 1 start
  simp only [Sections.readLine, depth, rest, cut]
  simp [other, outside]

theorem readLine_comment (within : s.current.isSome = true) (isComment : head = "c") :
    s.readLine width (List.replicate 1 '\t' ++ line) = .ok s := by
  obtain ⟨depth, rest⟩ := depth_replicate 1 start
  obtain ⟨c, current⟩ := Option.isSome_iff_exists.mp within
  simp only [Sections.readLine, depth, rest, cut]
  simp [isComment, memberKind?, current]

theorem readLine_nested {deep : Nat} (range : deep = 2 ∨ deep = 3) :
    s.readLine width (List.replicate deep '\t' ++ line) = .ok s := by
  obtain ⟨depth, rest⟩ := depth_replicate deep start
  simp only [Sections.readLine, depth, rest, cut]
  rcases range with rfl | rfl <;> simp

end

theorem stepLine_of_solid {width : Nat} {s : Sections} {line : List Char} {c : Char} (inside : c ∈ line)
    (solid : isBlank c = false) : stepLine width s line = s.readLine width line := by
  refine if_neg fun blank => ?_
  exact ne_true_of_eq_false solid (List.all_eq_true.mp blank c inside)

/-- A line after a class or a member that says nothing about the table: a blank one, a comment, or one
that stands deeper. -/
inductive Passed : List Char → Prop where
  | blank {line : List Char} (blank : line.all isBlank = true) : Passed line
  | comment {rest : List Char} (more : rest = [] ∨ rest.head? = some '\t') : Passed ('\t' :: 'c' :: rest)
  | nested {depth : Nat} (deep : depth = 2 ∨ depth = 3) {rest : List Char}
      (start : rest.head? ≠ some '\t') : Passed (List.replicate depth '\t' ++ rest)

/-- A carriage return at the end makes no difference. -/
theorem passed_bare {line : List Char} (passed : Passed line) : Passed (bare line) := by
  cases passed with
  | blank blank =>
    refine .blank (List.all_eq_true.mpr fun c member => List.all_eq_true.mp blank c ?_)
    rcases eq_bare_append line with same | longer
    · exact same ▸ member
    · exact longer ▸ List.mem_append_left _ member
  | @comment rest more =>
    have start : bare ('\t' :: 'c' :: rest) = '\t' :: 'c' :: bare rest :=
      bare_append (u := ['\t', 'c']) (by decide) rest
    rw [start]
    refine .comment ?_
    rcases rest with _ | ⟨c, rest⟩
    · exact .inl rfl
    · obtain rfl : c = '\t' := by simpa using more
      have tab : bare ('\t' :: rest) = '\t' :: bare rest := bare_append (u := ['\t']) (by decide) rest
      rw [tab]
      exact .inr rfl
  | @nested depth deep rest start =>
    rw [bare_append fun member => absurd (List.eq_of_mem_replicate member) (by decide)]
    refine .nested deep fun tab => start ?_
    rcases eq_bare_append rest with same | longer
    · rw [same, tab]
    · rw [longer, List.head?_append, tab]
      rfl

theorem stepLine_of_passed (width : Nat) {s : Sections} (within : s.current.isSome = true)
    {line : List Char} (passed : Passed line) : stepLine width s line = .ok s := by
  by_cases blank : line.all isBlank = true
  · exact if_pos blank
  rw [stepLine, if_neg blank]
  cases passed with
  | blank blank' => exact absurd blank' blank
  | @comment rest more =>
    obtain ⟨cols, cut⟩ : ∃ cols, columns ('c' :: rest) = "c" :: cols := by
      rcases rest with _ | ⟨c, rest⟩
      · exact ⟨[], rfl⟩
      · obtain rfl : c = '\t' := by simpa using more
        exact ⟨columns rest, rfl⟩
    exact readLine_comment width s (by simp) cut within rfl
  | @nested depth deep rest start =>
    obtain ⟨head, cols, cut⟩ : ∃ head cols, columns rest = head :: cols := by
      obtain ⟨f, fs, pieces⟩ := List.exists_cons_of_ne_nil (List.splitOn_ne_nil '\t' rest)
      exact ⟨String.ofList f, fs.map String.ofList, by rw [columns, fields_eq_splitOn, pieces, List.map_cons]⟩
    exact readLine_nested width s start cut deep

/-- Names can be read as they are written. -/
def Reads (s : Sections) (write : String → String) : Prop :=
  ∀ names : List String, s.readNames names.length (names.map write) = .ok names

theorem reads_id {s : Sections} (plain : s.escaped = false) : Reads s id := by
  intro names
  rw [Sections.readNames, takeNames_of_length (List.length_map _), plain, List.map_id]
  rfl

theorem reads_escape {s : Sections} (escaped : s.escaped = true) : Reads s escape := by
  intro names
  have undone : (names.map escape).map (fun n => String.ofList (unescape n.toList)) = names := by
    rw [List.map_map]
    exact List.map_id'' unescape_escape names
  rw [Sections.readNames, takeNames_of_length (List.length_map _), escaped]
  exact congrArg Except.ok undone

theorem row_cons (col : String) (cols : List String) :
    ∃ rest, (row (col :: cols)).toList = col.toList ++ rest := by
  rcases eq_or_ne cols [] with rfl | more
  · refine ⟨[], ?_⟩
    rw [toList_row, List.map_singleton, List.intercalate_singleton, List.append_nil]
  · exact ⟨_, toList_row_cons col more⟩

/-- A line that starts with a letter is read by its first column. -/
theorem stepLine_row (width : Nat) (s : Sections) (depth : Nat) (head : String) (cols : List String)
    {c : Char} {name : List Char} (letter : head.toList = c :: name) (solid : isBlank c = false)
    (plain : ∀ col ∈ head :: cols, Plain col) :
    stepLine width s (List.replicate depth '\t' ++ (row (head :: cols)).toList) =
      s.readLine width (List.replicate depth '\t' ++ (row (head :: cols)).toList) ∧
    (row (head :: cols)).toList.head? ≠ some '\t' ∧
    columns (row (head :: cols)).toList = head :: cols := by
  obtain ⟨rest, split⟩ := row_cons head cols
  rw [letter] at split
  refine ⟨stepLine_of_solid (c := c) ?_ solid, ?_, columns_row (List.cons_ne_nil _ _) plain⟩
  · exact List.mem_append_right _ (split ▸ List.mem_cons_self)
  · rw [split, List.cons_append, List.head?_cons, ne_eq, Option.some.injEq]
    rintro rfl
    exact absurd solid (by decide)

theorem stepLine_class {width : Nat} {s : Sections} {write : String → String} (reads : Reads s write)
    {names : List String} (wide : names.length = width) (plain : ∀ name ∈ names, Plain (write name)) :
    stepLine width s (bare (row ("c" :: names.map write)).toList) =
      .ok { s with done := s.classes, current := some (.make names) } := by
  have plain' : ∀ col ∈ "c" :: names.map write, Plain col :=
    List.forall_mem_cons.mpr ⟨by simp [Plain], List.forall_mem_map.mpr plain⟩
  rw [bare_row plain']
  obtain ⟨read, start, cut⟩ := stepLine_row width s 0 "c" _ (c := 'c') rfl (by decide) plain'
  refine read.trans ((readLine_class width s start cut rfl).trans ?_)
  simp only [← wide, reads names]
  rfl

theorem stepLine_member {width : Nat} {s : Sections} {write : String → String} (reads : Reads s write)
    {c : ClassMapping} (current : s.current = some c) {m : WrittenMember}
    (wide : m.names.length = width) (descriptor : Plain m.descriptor)
    (plain : ∀ name ∈ m.names, Plain (write name)) :
    stepLine width s (bare (row ("" :: letter m.kind :: m.descriptor :: m.names.map write)).toList) =
      .ok { s with current := some (c.add m.kind (.make m.descriptor m.names)) } := by
  have tail : ∀ col ∈ m.descriptor :: m.names.map write, Plain col :=
    List.forall_mem_cons.mpr ⟨descriptor, List.forall_mem_map.mpr plain⟩
  have whole : ∀ col ∈ "" :: letter m.kind :: m.descriptor :: m.names.map write, Plain col := by
    refine List.forall_mem_cons.mpr ⟨by simp [Plain], List.forall_mem_cons.mpr ⟨?_, tail⟩⟩
    cases m.kind <;> simp [letter, Plain]
  rw [bare_row whole, toList_row_cons "" (List.cons_ne_nil _ _)]
  cases kind : m.kind with
  | field =>
    obtain ⟨read, start, cut⟩ := stepLine_row width s 1 "f" _ (c := 'f') rfl (by decide)
      (List.forall_mem_cons.mpr ⟨by simp [Plain], tail⟩)
    refine read.trans ((readLine_member width s start cut rfl).trans ?_)
    simp [Sections.readMember, current, ← wide, reads m.names]
  | method =>
    obtain ⟨read, start, cut⟩ := stepLine_row width s 1 "m" _ (c := 'm') rfl (by decide)
      (List.forall_mem_cons.mpr ⟨by simp [Plain], tail⟩)
    refine read.trans ((readLine_member width s start cut rfl).trans ?_)
    simp [Sections.readMember, current, ← wide, reads m.names]

theorem stepLine_property (width : Nat) :
    stepLine width {} (bare (row ["", "escaped-names"]).toList) = .ok { escaped := true } := by
  rw [bare_row (by simp [Plain]), toList_row_cons "" (List.cons_ne_nil _ _)]
  obtain ⟨read, start, cut⟩ := stepLine_row width {} 1 "escaped-names" [] (c := 'e') rfl (by decide)
    (by simp [Plain])
  exact read.trans (readLine_property width {} start cut rfl rfl)

/-! ### Sections -/

/-- What is asked of the lines of a class: columns can be told apart, and other lines say nothing. -/
structure WrittenClass.Clear (write : String → String) (w : WrittenClass) : Prop where
  names : ∀ name ∈ w.names, Plain (write name)
  inner : ∀ m ∈ w.members, ∀ name ∈ m.names, Plain (write name)
  passed : ∀ line ∈ w.passed, Passed line.toList
  innerPassed : ∀ m ∈ w.members, ∀ line ∈ m.passed, Passed line.toList

/-- The lines as they are seen. -/
def seen (ls : List String) : List (List Char) := ls.map fun l => bare l.toList

theorem steps_append {width : Nat} {s s' : Sections} {ls : List (List Char)}
    (first : ls.foldlM (stepLine width) s = .ok s') (ls' : List (List Char)) :
    (ls ++ ls').foldlM (stepLine width) s = ls'.foldlM (stepLine width) s' := by
  rw [List.foldlM_append, first]
  rfl

theorem steps_passed (width : Nat) {s : Sections} (within : s.current.isSome = true) {ls : List String}
    (passed : ∀ line ∈ ls, Passed line.toList) : (seen ls).foldlM (stepLine width) s = .ok s := by
  induction ls with
  | nil => rfl
  | cons line ls ih =>
    obtain ⟨first, others⟩ := List.forall_mem_cons.mp passed
    rw [seen, List.map_cons, List.foldlM_cons, stepLine_of_passed width within (passed_bare first)]
    exact ih others

theorem steps_members {width : Nat} {write : String → String} {ms : List WrittenMember}
    (fits : ∀ m ∈ ms, m.names.length = width ∧ Plain m.descriptor)
    (plain : ∀ m ∈ ms, ∀ name ∈ m.names, Plain (write name))
    (passed : ∀ m ∈ ms, ∀ line ∈ m.passed, Passed line.toList) {s : Sections} (reads : Reads s write)
    {c : ClassMapping} (current : s.current = some c) :
    (seen (ms.flatMap (WrittenMember.lines₂ write))).foldlM (stepLine width) s =
      .ok { s with
        current := some (ms.foldl (fun c m => c.add m.kind (.make m.descriptor m.names)) c) } := by
  induction ms generalizing s c with
  | nil =>
    obtain ⟨escaped, done, current'⟩ := s
    obtain rfl : current' = some c := current
    rfl
  | cons m ms ih =>
    obtain ⟨fits, fits'⟩ := List.forall_mem_cons.mp fits
    obtain ⟨plain, plain'⟩ := List.forall_mem_cons.mp plain
    obtain ⟨passed, passed'⟩ := List.forall_mem_cons.mp passed
    have line := stepLine_member reads current fits.1 fits.2 plain
    have rest := ih fits' plain' passed' (s := { s with
      current := some (c.add m.kind (.make m.descriptor m.names)) }) reads rfl
    rw [seen, List.flatMap_cons, WrittenMember.lines₂, List.cons_append, List.map_cons, List.foldlM_cons,
      line, List.map_append]
    exact (steps_append (steps_passed width rfl passed) _).trans rest

theorem steps_class {t : MappingTable} {write : String → String} {w : WrittenClass} (fits : w.Fits t)
    (clear : w.Clear write) {s : Sections} (reads : Reads s write) :
    (seen (w.lines₂ write)).foldlM (stepLine t.namespaces.length) s =
      .ok { s with done := s.classes, current := some w.read } := by
  have line := stepLine_class reads fits.wide clear.names
  have members := steps_members fits.members clear.inner clear.innerPassed
    (s := { s with done := s.classes, current := some (.make w.names) }) reads rfl
  rw [seen, WrittenClass.lines₂, List.cons_append, List.map_cons, List.foldlM_cons, line, List.map_append]
  exact (steps_append (steps_passed _ rfl clear.passed) _).trans members

theorem steps_classes {t : MappingTable} {write : String → String} {ws : List WrittenClass}
    (fits : ∀ w ∈ ws, w.Fits t) (clear : ∀ w ∈ ws, w.Clear write) {s : Sections} (reads : Reads s write) :
    ∃ s', (seen (ws.flatMap (WrittenClass.lines₂ write))).foldlM (stepLine t.namespaces.length) s = .ok s' ∧
      s'.classes = s.classes ++ ws.map WrittenClass.read := by
  induction ws generalizing s with
  | nil => exact ⟨s, rfl, (List.append_nil _).symm⟩
  | cons w ws ih =>
    obtain ⟨fits, fits'⟩ := List.forall_mem_cons.mp fits
    obtain ⟨clear, clear'⟩ := List.forall_mem_cons.mp clear
    obtain ⟨s', steps, classes⟩ := ih fits' clear'
      (s := { s with done := s.classes, current := some w.read }) reads
    refine ⟨s', ?_, classes.trans ?_⟩
    · rw [seen, List.flatMap_cons, List.map_append]
      exact (steps_append (steps_class fits clear reads) _).trans steps
    · rw [List.map_cons]
      exact List.append_assoc _ _ _

/-- Nothing but lines that say nothing is put in. -/
def WrittenClass.Passes (w : WrittenClass) : Prop :=
  ∀ line ∈ w.passed ++ w.members.flatMap WrittenMember.passed, Passed line.toList ∧ '\n' ∉ line.toList

theorem clear_of_passes {w : WrittenClass} (passes : w.Passes) {write : String → String}
    (names : ∀ name ∈ w.names, Plain (write name))
    (inner : ∀ m ∈ w.members, ∀ name ∈ m.names, Plain (write name)) : w.Clear write where
  names := names
  inner := inner
  passed line member := (passes line (List.mem_append_left _ member)).1
  innerPassed m listed line member :=
    (passes line (List.mem_append_right _ (List.mem_flatMap.mpr ⟨m, listed, member⟩))).1

theorem not_mem_of_lines₂ {t : MappingTable} {w : WrittenClass} (fits : w.Fits t) (passes : w.Passes)
    {write : String → String} (clear : w.Clear write) : ∀ l ∈ w.lines₂ write, '\n' ∉ l.toList := by
  have ofRow {cols : List String} (plain : ∀ col ∈ cols, Plain col) : '\n' ∉ (row cols).toList :=
    fun inside => (mem_row plain inside).2 rfl
  intro l member
  rcases List.mem_append.mp member with own | inner
  · rcases List.mem_cons.mp own with rfl | extra
    · exact ofRow (List.forall_mem_cons.mpr ⟨by simp [Plain], List.forall_mem_map.mpr clear.names⟩)
    · exact (passes l (List.mem_append_left _ extra)).2
  · obtain ⟨m, listed, member⟩ := List.mem_flatMap.mp inner
    rcases List.mem_cons.mp member with rfl | extra
    · refine ofRow (List.forall_mem_cons.mpr ⟨by simp [Plain], List.forall_mem_cons.mpr ⟨?_,
        List.forall_mem_cons.mpr ⟨(fits.members m listed).2, List.forall_mem_map.mpr (clear.inner m listed)⟩⟩⟩)
      cases m.kind <;> simp [letter, Plain]
    · exact (passes l (List.mem_append_right _ (List.mem_flatMap.mpr ⟨m, listed, extra⟩))).2

/-- A file of version 2 after whose first lines names can be read as they are written. -/
theorem parse_sections {t : MappingTable} (regular : t.Regular) {ws : List WrittenClass}
    (stand : List.Forall₂ (fun c w => WrittenClass.Stands c w) t.classes ws)
    (passes : ∀ w ∈ ws, w.Passes) (write : String → String) (clear : ∀ w ∈ ws, w.Clear write)
    (front : List String) (one : ∀ l ∈ front, '\n' ∉ l.toList) {s : Sections}
    (steps : (seen front).foldlM (stepLine t.namespaces.length) {} = .ok s) (reads : Reads s write)
    (none : s.classes = []) :
    parse (unlines (row ("tiny" :: "2" :: "0" :: t.namespaces) ::
      (front ++ ws.flatMap (WrittenClass.lines₂ write)))) = .ok t := by
  have fits : ∀ w ∈ ws, w.Fits t := by
    intro w member
    obtain ⟨c, listed, stands⟩ := exists_of_mem_right stand member
    exact fits_of_stands regular listed stands
  have header : ∀ col ∈ "tiny" :: "2" :: "0" :: t.namespaces, Plain col := by
    refine List.forall_mem_cons.mpr ⟨by simp [Plain], List.forall_mem_cons.mpr ⟨by simp [Plain],
      List.forall_mem_cons.mpr ⟨by simp [Plain], regular.namespaces⟩⟩⟩
  have all : ∀ l ∈ row ("tiny" :: "2" :: "0" :: t.namespaces) ::
      (front ++ ws.flatMap (WrittenClass.lines₂ write)), '\n' ∉ l.toList := by
    intro l member
    rcases List.mem_cons.mp member with rfl | member
    · exact fun inside => (mem_row header inside).2 rfl
    rcases List.mem_append.mp member with before | member
    · exact one l before
    · obtain ⟨w, listed, member⟩ := List.mem_flatMap.mp member
      exact not_mem_of_lines₂ (fits w listed) (passes w listed) (clear w listed) l member
  have split := lines_unlines all
  rw [List.map_cons, bare_row header] at split
  obtain ⟨s', steps', classes⟩ := steps_classes fits clear reads
  have whole : (seen (front ++ ws.flatMap (WrittenClass.lines₂ write))).foldlM
      (stepLine t.namespaces.length) {} = .ok s' := by
    rw [seen, List.map_append]
    exact (steps_append steps _).trans steps'
  rw [parse_of_header₂ split (columns_row (List.cons_ne_nil _ _) header) regular.wide]
  refine (parseSections_of_steps whole).trans ?_
  rw [classes, none, List.nil_append, map_read regular stand]

/-- Whatever is left out and put in where it says nothing, both versions give the table back. In version 1
classes are told apart by their first names, and without escapes names have to be plain. -/
theorem parse_written {t : MappingTable} (regular : t.Regular) {ws : List WrittenClass}
    (stand : List.Forall₂ (fun c w => WrittenClass.Stands c w) t.classes ws) :
    (t.PlainNames → (t.classes.map fun c => c.names.headD "").Nodup →
        parse (version₁ t.namespaces ws) = .ok t) ∧
      ((∀ w ∈ ws, w.Passes) → parse (version₂Escaped t.namespaces ws) = .ok t ∧
        (t.PlainNames → parse (version₂ t.namespaces ws) = .ok t)) := by
  refine ⟨fun plain distinct => parse_version₁ regular plain distinct stand, fun passes => ⟨?_, fun plain => ?_⟩⟩
  · have property : '\n' ∉ (row ["", "escaped-names"]).toList :=
      fun inside => (mem_row (by simp [Plain]) inside).2 rfl
    refine parse_sections regular stand passes escape (fun w member => ?_) [row ["", "escaped-names"]]
      (by simpa using property) (s := { escaped := true }) ?_ (reads_escape rfl) rfl
    · exact clear_of_passes (passes w member) (fun _ _ => plain_escape _) fun _ _ _ _ => plain_escape _
    · rw [seen, List.map_singleton, List.foldlM_cons, stepLine_property]
      rfl
  · refine parse_sections regular stand passes id (fun w member => ?_) []
      (fun l member => by cases member) rfl (reads_id rfl) rfl
    obtain ⟨c, listed, stands⟩ := exists_of_mem_right stand member
    obtain ⟨names, inner⟩ := (fits_of_stands regular listed stands).plain plain
    exact clear_of_passes (passes w member) names inner

/-- A table with one field, which has the same name in both namespaces. -/
def oneField : MappingTable := ⟨["a", "b"], [⟨["x", "y"], [⟨"I", ["f", "f"]⟩], []⟩]⟩

/-- The field is named once, and there are a comment, a blank line and a comment on the field. -/
def writtenField : WrittenClass :=
  ⟨["x", "y"], ["\tc\tnote"], [⟨.field, "I", ["f", ""], ["", "\t\tc\tnote"]⟩]⟩

theorem parse_written_field :
    parse (version₁ oneField.namespaces [writtenField]) = .ok oneField ∧
      parse (version₂Escaped oneField.namespaces [writtenField]) = .ok oneField ∧
      parse (version₂ oneField.namespaces [writtenField]) = .ok oneField := by
  have regular : oneField.Regular := by
    refine ⟨by decide, ?_, ?_, by decide⟩ <;> simp [oneField, Plain]
  have stands : writtenField.Stands ⟨["x", "y"], [⟨"I", ["f", "f"]⟩], []⟩ := by
    refine ⟨⟨rfl, ?_⟩, ?_, .nil⟩
    · simp [writtenField]
    · exact .cons ⟨rfl, rfl, by simp⟩ .nil
  have plain : oneField.PlainNames := by
    simp [MappingTable.PlainNames, MappingTable.nameRows, oneField, Plain]
  have comment : Passed "\tc\tnote".toList := .comment (.inr rfl)
  have nested : Passed (List.replicate 2 '\t' ++ "c\tnote".toList) := .nested (.inl rfl) (by decide)
  have passes : writtenField.Passes := by
    refine List.forall_mem_cons.mpr ⟨⟨comment, by decide⟩, List.forall_mem_cons.mpr ⟨⟨.blank rfl, by decide⟩,
      List.forall_mem_cons.mpr ⟨⟨nested, by decide⟩, fun line member => by cases member⟩⟩⟩
  have stand : List.Forall₂ (fun c w => WrittenClass.Stands c w) oneField.classes [writtenField] :=
    .cons stands .nil
  have read := parse_written regular stand
  have passes' : ∀ w ∈ [writtenField], w.Passes := fun w member => List.mem_singleton.mp member ▸ passes
  exact ⟨read.1 plain (by decide), (read.2 passes').1, (read.2 passes').2 plain⟩

end ModRemap.Tiny
