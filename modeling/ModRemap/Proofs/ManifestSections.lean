import Mathlib
import ModRemap.Proofs.LossyText
import ModRemap.Proofs.ManifestLines

/-! The sections of a manifest, and what is written of them without digests. -/

namespace ModRemap.Manifest

open Text

/-- Each section but the last ends in a blank line, and there are no other blank lines. -/
inductive Parted : List (List (List Char)) → Prop
  | last {lines : List (List Char)} (filled : ∀ l ∈ lines, ¬Blank l) : Parted [lines]
  | cons {body : List (List Char)} {blank : List Char} {sections : List (List (List Char))}
    (filled : ∀ l ∈ body, ¬Blank l) (ends : Blank blank) (others : Parted sections) :
    Parted ((body ++ [blank]) :: sections)

/-- The sections of a text, each as its lines. -/
structure Divides (s : List Char) (sections : List (List (List Char))) : Prop where
  lines : AreLines sections.flatten
  text : sections.flatten.flatten = s
  parted : Parted sections

theorem flatten_sections (lines : List (List Char)) : (sections lines).flatten = lines := by
  induction lines with
  | nil => simp [sections]
  | cons line lines ih =>
    rw [sections]
    split_ifs
    · rw [List.flatten_cons, ih, List.singleton_append]
    · cases parts : sections lines with
      | nil => simpa [parts, eq_comm] using ih
      | cons first others => simpa [parts] using ih

theorem parted_sections (lines : List (List Char)) : Parted (sections lines) := by
  induction lines with
  | nil => exact .last nofun
  | cons line lines ih =>
    rw [sections]
    split_ifs with empty
    · have none : ∀ l ∈ ([] : List (List Char)), ¬Blank l := nofun
      exact .cons none (isEmptyLine_iff.mp empty) ih
    · have filled {body : List (List Char)} (others : ∀ l ∈ body, ¬Blank l) :
          ∀ l ∈ line :: body, ¬Blank l :=
        List.forall_mem_cons.mpr ⟨mt isEmptyLine_iff.mpr empty, others⟩
      generalize sections lines = parts at ih
      cases ih with
      | last others => exact .last (filled others)
      | cons others ends rest => exact .cons (filled others) ends rest

theorem sections_append {body : List (List Char)} {blank : List Char}
    (filled : ∀ l ∈ body, ¬Blank l) (ends : Blank blank) (lines : List (List Char)) :
    sections (body ++ blank :: lines) = (body ++ [blank]) :: sections lines := by
  induction body with
  | nil => rw [List.nil_append, sections, if_pos (isEmptyLine_iff.mpr ends), List.nil_append]
  | cons line body ih =>
    obtain ⟨first, others⟩ := List.forall_mem_cons.mp filled
    rw [List.cons_append, sections, if_neg (mt isEmptyLine_iff.mp first), ih others]
    rfl

theorem sections_of_filled {lines : List (List Char)} (filled : ∀ l ∈ lines, ¬Blank l) :
    sections lines = [lines] := by
  induction lines with
  | nil => rfl
  | cons line lines ih =>
    obtain ⟨first, others⟩ := List.forall_mem_cons.mp filled
    rw [sections, if_neg (mt isEmptyLine_iff.mp first), ih others]

theorem parted_cons_iff {first : List (List Char)} {others : List (List (List Char))} :
    Parted (first :: others) ↔ (others = [] ∧ ∀ l ∈ first, ¬Blank l) ∨
      ∃ body blank, first = body ++ [blank] ∧ (∀ l ∈ body, ¬Blank l) ∧ Blank blank ∧ Parted others := by
  constructor
  · intro h
    cases h with
    | last filled => exact .inl ⟨rfl, filled⟩
    | cons filled ends rest => exact .inr ⟨_, _, rfl, filled, ends, rest⟩
  · rintro (⟨rfl, filled⟩ | ⟨body, blank, rfl, filled, ends, rest⟩)
    · exact .last filled
    · exact .cons filled ends rest

theorem Parted.sections_flatten {parts : List (List (List Char))} (h : Parted parts) :
    sections parts.flatten = parts := by
  induction h with
  | last filled => rw [List.flatten_singleton, sections_of_filled filled]
  | cons filled ends _ ih =>
    rw [List.flatten_cons, List.append_assoc, List.singleton_append, sections_append filled ends, ih]

theorem divides_iff {s : List Char} {parts : List (List (List Char))} :
    Divides s parts ↔ parts = sections (linesKept s) := by
  constructor
  · intro h
    rw [← h.text, h.lines.linesKept_flatten, h.parted.sections_flatten]
  · rintro rfl
    refine ⟨?_, ?_, parted_sections _⟩
    · rw [flatten_sections]
      exact areLines_linesKept s
    · rw [flatten_sections, flatten_linesKept]

/-! ### Folded lines -/

/-- A line with the lines that continue it. -/
structure Folded where
  line : List Char
  more : List (List Char)
  starts : ¬Continues line
  follow : ∀ l ∈ more, Continues l

def Folded.lines (f : Folded) : List (List Char) := f.line :: f.more

/-- A section starts with the lines, if any, that continue none of its own. -/
structure Section where
  front : List (List Char)
  parts : List Folded
  follow : ∀ l ∈ front, Continues l

namespace Section

def lines (sec : Section) : List (List Char) := sec.front ++ sec.parts.flatMap Folded.lines

def undigested (sec : Section) : Section :=
  { sec with parts := sec.parts.filter fun f => ¬IsDigestLine f.line }

/-- There is something besides the name and digests. -/
def Stays (sec : Section) : Prop :=
  ∃ l ∈ sec.lines, ¬Blank l ∧ ¬Continues l ∧ ¬IsNameLine l ∧ ¬IsDigestLine l

instance (sec : Section) : Decidable sec.Stays := by
  unfold Stays
  infer_instance

theorem exists_lines_eq (lines : List (List Char)) : ∃ sec : Section, sec.lines = lines := by
  induction lines with
  | nil => exact ⟨⟨[], [], nofun⟩, rfl⟩
  | cons line lines ih =>
    obtain ⟨⟨front, parts, follow⟩, rfl⟩ := ih
    by_cases run : Continues line
    · exact ⟨⟨line :: front, parts, List.forall_mem_cons.mpr ⟨run, follow⟩⟩, rfl⟩
    · refine ⟨⟨[], ⟨line, front, run, follow⟩ :: parts, nofun⟩, ?_⟩
      rw [lines, lines, List.flatMap_cons, Folded.lines, List.nil_append, List.cons_append]

theorem withoutDigests_follow {more : List (List Char)} (follow : ∀ l ∈ more, Continues l)
    (dropping : Bool) (rest : List (List Char)) : withoutDigests dropping (more ++ rest) =
      (if dropping then [] else more) ++ withoutDigests dropping rest := by
  induction more with
  | nil => simp
  | cons line more ih =>
    obtain ⟨first, others⟩ := List.forall_mem_cons.mp follow
    rw [List.cons_append, withoutDigests_of_continues _ _ first]
    cases dropping with
    | true => exact ih others
    | false => simpa using ih others

theorem withoutDigests_parts (dropping : Bool) (parts : List Folded) :
    withoutDigests dropping (parts.flatMap Folded.lines) =
      (parts.filter fun f => ¬IsDigestLine f.line).flatMap Folded.lines := by
  induction parts generalizing dropping with
  | nil => rfl
  | cons f parts ih =>
    rw [List.flatMap_cons, Folded.lines, List.cons_append, withoutDigests_of_starts _ _ f.starts]
    by_cases digest : IsDigestLine f.line
    · rw [if_pos digest, withoutDigests_follow f.follow, ih]
      simp [digest]
    · rw [if_neg digest, withoutDigests_follow f.follow, ih]
      simp [digest, Folded.lines]

theorem withoutDigests_lines (sec : Section) :
    withoutDigests false sec.lines = sec.undigested.lines := by
  rw [lines, withoutDigests_follow sec.follow, withoutDigests_parts]
  rfl

theorem undigested_sublist (sec : Section) : sec.undigested.lines.Sublist sec.lines :=
  withoutDigests_lines sec ▸ withoutDigests_sublist _ _

theorem mem_undigested_iff {sec : Section} {l : List Char} (starts : ¬Continues l) :
    l ∈ sec.undigested.lines ↔ l ∈ sec.lines ∧ ¬IsDigestLine l := by
  rw [← withoutDigests_lines, mem_withoutDigests_iff starts]

theorem any_isAttribute_iff (sec : Section) : sec.undigested.lines.any isAttribute = true ↔ sec.Stays := by
  simp only [List.any_eq_true, isAttribute_iff]
  refine exists_congr fun l => ⟨?_, ?_⟩
  · rintro ⟨member, filled, starts, other⟩
    obtain ⟨inside, kept⟩ := (mem_undigested_iff starts).mp member
    exact ⟨inside, filled, starts, other, kept⟩
  · rintro ⟨inside, filled, starts, other, kept⟩
    exact ⟨(mem_undigested_iff starts).mpr ⟨inside, kept⟩, filled, starts, other⟩

theorem keptSection_lines (sec : Section) :
    keptSection sec.lines = if sec.Stays then sec.undigested.lines else [] := by
  rw [keptSection, withoutDigests_lines]
  exact if_congr (any_isAttribute_iff sec) rfl rfl

theorem keptSection_undigested {sec : Section} (stays : sec.Stays) :
    keptSection sec.undigested.lines = sec.undigested.lines := by
  have again : withoutDigests false sec.undigested.lines = sec.undigested.lines := by
    rw [← withoutDigests_lines, withoutDigests_twice]
  rw [keptSection, again]
  exact if_pos ((any_isAttribute_iff sec).mpr stays)

/-- What is left of the later sections, in their order. -/
def kept (secs : List Section) : List (List (List Char)) :=
  (secs.filter Stays).map fun sec => sec.undigested.lines

theorem kept_cons_of_stays {sec : Section} (stays : sec.Stays) (secs : List Section) :
    kept (sec :: secs) = sec.undigested.lines :: kept secs := by
  simp [kept, stays]

theorem kept_cons_of_not_stays {sec : Section} (goes : ¬sec.Stays) (secs : List Section) :
    kept (sec :: secs) = kept secs := by
  simp [kept, goes]

theorem flatten_kept_sublist (secs : List Section) :
    (kept secs).flatten.Sublist (secs.map lines).flatten := by
  induction secs with
  | nil => exact .slnil
  | cons sec secs ih =>
    rw [List.map_cons, List.flatten_cons]
    by_cases stays : sec.Stays
    · rw [kept_cons_of_stays stays, List.flatten_cons]
      exact sec.undigested_sublist.append ih
    · rw [kept_cons_of_not_stays stays]
      exact ih.trans (List.sublist_append_right ..)

/-- Where the last section goes, nothing follows the blank line before it. -/
theorem parted_kept {secs : List Section} (h : Parted (secs.map lines)) :
    ∃ ending, (ending = [] ∨ ending = [[]]) ∧ Parted (kept secs ++ ending) := by
  induction secs with
  | nil => cases h
  | cons sec secs ih =>
    have part := sec.undigested_sublist
    rcases parted_cons_iff.mp h with ⟨none, filled⟩ | ⟨body, blank, split, filled, ends, rest⟩
    · obtain rfl := List.map_eq_nil_iff.mp none
      by_cases stays : sec.Stays
      · refine ⟨[], .inl rfl, ?_⟩
        rw [kept_cons_of_stays stays]
        exact .last fun l member => filled l (part.subset member)
      · refine ⟨[[]], .inr rfl, ?_⟩
        rw [kept_cons_of_not_stays stays]
        exact .last nofun
    · obtain ⟨ending, short, parted⟩ := ih rest
      refine ⟨ending, short, ?_⟩
      by_cases stays : sec.Stays
      · have whole : sec.undigested.lines = withoutDigests false body ++ [blank] := by
          rw [← withoutDigests_lines, split, withoutDigests_append_blank ends]
        rw [kept_cons_of_stays stays, List.cons_append, whole]
        exact .cons (fun l member => filled l ((withoutDigests_sublist _ _).subset member)) ends parted
      · rw [kept_cons_of_not_stays stays]
        exact parted

theorem flatMap_keptSection (secs : List Section) :
    (secs.map lines).flatMap keptSection = (kept secs).flatten := by
  induction secs with
  | nil => rfl
  | cons sec secs ih =>
    rw [List.map_cons, List.flatMap_cons, ih, keptSection_lines]
    by_cases stays : sec.Stays
    · rw [if_pos stays, kept_cons_of_stays stays, List.flatten_cons]
    · rw [if_neg stays, kept_cons_of_not_stays stays, List.nil_append]

theorem flatMap_keptSection_kept (secs : List Section) :
    (kept secs).flatMap keptSection = (kept secs).flatten := by
  rw [← List.flatMap_id, kept, List.flatMap_map, List.flatMap_map]
  refine List.flatMap_congr fun sec member => ?_
  exact keptSection_undigested (by simpa using (List.mem_filter.mp member).2)

end Section

/-! ### Whole manifests -/

theorem stripChars_of_divides {s : List Char} {main : List (List Char)}
    {later : List (List (List Char))} (h : Divides s (main :: later)) :
    stripChars s = main.flatten ++ (later.flatMap keptSection).flatten := by
  rw [stripChars, ← divides_iff.mp h]

theorem exists_sections (s : List Char) :
    ∃ main, ∃ later : List Section, Divides s (main :: later.map Section.lines) := by
  have divided := divides_iff.mpr (rfl : sections (linesKept s) = _)
  have parted := divided.parted
  cases parts : sections (linesKept s) with
  | nil =>
    rw [parts] at parted
    cases parted
  | cons main others =>
    have folded : ∃ later : List Section, later.map Section.lines = others := by
      clear parts
      induction others with
      | nil => exact ⟨[], rfl⟩
      | cons lines others ih =>
        obtain ⟨sec, rfl⟩ := Section.exists_lines_eq lines
        obtain ⟨later, rfl⟩ := ih
        exact ⟨sec :: later, rfl⟩
    obtain ⟨later, rfl⟩ := folded
    exact ⟨main, later, parts ▸ divided⟩

open Section in
/-- What is written divides into the sections that are kept, and an empty one where the last goes. -/
theorem divides_stripped {s : List Char} {main : List (List Char)} {later : List Section}
    (h : Divides s (main :: later.map Section.lines)) : ∃ ending, (ending = [] ∨ ending = [[]]) ∧
      Divides (main.flatten ++ (kept later).flatten.flatten) (main :: (kept later ++ ending)) := by
  obtain ⟨ending, short, parted⟩ : ∃ ending, (ending = [] ∨ ending = [[]]) ∧
      Parted (main :: (kept later ++ ending)) := by
    rcases parted_cons_iff.mp h.parted with ⟨none, filled⟩ | ⟨body, blank, rfl, filled, ends, rest⟩
    · obtain rfl := List.map_eq_nil_iff.mp none
      exact ⟨[], .inl rfl, .last filled⟩
    · obtain ⟨ending, short, parted⟩ := parted_kept rest
      exact ⟨ending, short, .cons filled ends parted⟩
  have flat : (main :: (kept later ++ ending)).flatten = main ++ (kept later).flatten := by
    rcases short with rfl | rfl
    · rw [List.append_nil, List.flatten_cons]
    · simp
  refine ⟨ending, short, ?_, ?_, parted⟩
  · rw [flat]
    exact h.lines.sublist ((List.Sublist.refl main).append (flatten_kept_sublist later))
  · rw [flat, List.flatten_append]

open Section in
/-- A manifest divides into its sections in one way. After the first, which stays, those with a reason
to stay are written without their digests, and no digest is found there nor anything left to drop. -/
theorem stripDigests_sections (s : List Char) :
    ∃ main, ∃ later : List Section, ∃ out,
      (∀ parts, Divides s parts ↔ parts = main :: later.map Section.lines) ∧
      stripDigests (Utf8.encode s) = Utf8.encode out ∧
      out = main.flatten ++
        ((later.filter Stays).map fun sec => sec.undigested.lines).flatten.flatten ∧
      (∀ parts, Divides out parts → parts.head? = some main ∧
        ∀ lines ∈ parts.tail, ∀ l ∈ lines, ¬Continues l → ¬IsDigestLine l) ∧
      stripDigests (stripDigests (Utf8.encode s)) = stripDigests (Utf8.encode s) := by
  obtain ⟨main, later, divided⟩ := exists_sections s
  have whole := divides_iff.mp divided
  obtain ⟨ending, short, again⟩ := divides_stripped divided
  have written : stripDigests (Utf8.encode s) =
      Utf8.encode (main.flatten ++ (kept later).flatten.flatten) := by
    rw [stripDigests, Utf8.decodeLossy_encode, stripChars_of_divides divided, flatMap_keptSection]
  refine ⟨main, later, _, fun parts => ?_, written, rfl, fun parts h => ?_, ?_⟩
  · rw [divides_iff, whole]
  -- Any division of the output is the one into the sections kept, where digests are gone.
  · have same := (divides_iff.mp h).trans (divides_iff.mp again).symm
    rw [same]
    refine ⟨rfl, fun lines member l inside starts => ?_⟩
    rcases List.mem_append.mp member with member | member
    · obtain ⟨sec, -, rfl⟩ := List.mem_map.mp member
      exact ((mem_undigested_iff starts).mp inside).2
    · rcases short with rfl | rfl
      · exact nomatch member
      · exact nomatch List.mem_singleton.mp member ▸ inside
  · have none : ending.flatMap keptSection = [] := by
      rcases short with rfl | rfl <;> rfl
    rw [written, stripDigests, Utf8.decodeLossy_encode, stripChars_of_divides again,
      List.flatMap_append, flatMap_keptSection_kept, none, List.append_nil]

end ModRemap.Manifest
