import Mathlib
import ModRemap.Proofs.MemberTargets

/-! An access widener is rewritten line by line. Whether it is accepted is a matter of its text and
of the namespace that it is to name; the table only tells what the names in a declaration become. -/

namespace ModRemap

namespace Text

theorem mem_splitOnP {p : Char → Bool} {s w : List Char} (member : w ∈ s.splitOnP p) {c : Char}
    (inside : c ∈ w) : c ∈ s ∧ p c = false := by
  induction s generalizing w with
  | nil =>
    rw [List.splitOnP_nil, List.mem_singleton] at member
    exact absurd (member ▸ inside) List.not_mem_nil
  | cons x s ih =>
    rw [List.splitOnP_cons_eq_if_modifyHead] at member
    split_ifs at member with sep
    · rcases List.mem_cons.mp member with rfl | later
      · exact absurd inside List.not_mem_nil
      · exact (ih later inside).imp_left (List.mem_cons_of_mem x)
    · obtain ⟨first, others, pieces⟩ := List.exists_cons_of_ne_nil (List.splitOnP_ne_nil p s)
      rw [pieces, List.modifyHead_cons] at member
      rcases List.mem_cons.mp member with rfl | later
      · rcases List.mem_cons.mp inside with rfl | inside
        · exact ⟨List.mem_cons_self, Bool.eq_false_of_not_eq_true sep⟩
        · exact (ih (pieces ▸ List.mem_cons_self) inside).imp_left (List.mem_cons_of_mem x)
      · exact (ih (pieces ▸ List.mem_cons_of_mem first later) inside).imp_left
          (List.mem_cons_of_mem x)

theorem words_append_blank (s : List Char) {c : Char} (blank : isBlank c = true) :
    words (s ++ [c]) = words s := by
  rw [words_eq_filter_splitOnP, words_eq_filter_splitOnP, List.splitOnP_append_cons s [] blank,
    List.splitOnP_nil, List.filter_append]
  exact List.append_nil _

end Text

namespace AccessWidener

open Text

/-! Declarations. -/

inductive Declaration where
  | ofClass (access name : String)
  | ofMember (kind : MemberKind) (access owner name descriptor : String)
deriving DecidableEq

namespace Declaration

def access : Declaration → String
  | ofClass access _ => access
  | ofMember _ access _ _ _ => access

/-- What may be given to a class, a method or a field. -/
def bases : Declaration → List String
  | ofClass _ _ => ["accessible", "extendable"]
  | ofMember .method _ _ _ _ => ["accessible", "extendable"]
  | ofMember .field _ _ _ _ => ["accessible", "mutable"]

def tokens : Declaration → List String
  | ofClass access name => [access, "class", name]
  | ofMember kind access owner name descriptor => [access, kind.word, owner, name, descriptor]

/-- The member is looked up by the names that the declaration has. -/
def rename (ix : MappingIndex) : Declaration → Declaration
  | ofClass access name => ofClass access ((ix.mapClass name).getD name)
  | ofMember kind access owner name descriptor =>
    ofMember kind access ((ix.mapClass owner).getD owner)
      ((ix.mapMember kind owner name descriptor).getD name) (ix.mapDescriptor descriptor)

def Legal (v : Version) (d : Declaration) : Prop :=
  ∃ base ∈ d.bases, baseAccess v d.access = .ok base

theorem tokens_ne_nil (d : Declaration) : d.tokens ≠ [] := by
  cases d <;> exact List.cons_ne_nil _ _

theorem Legal.rename {v : Version} {d : Declaration} (h : d.Legal v) (ix : MappingIndex) :
    (d.rename ix).Legal v := by
  rcases d with _ | ⟨_ | _, _, _, _, _⟩ <;> exact h

end Declaration

variable {ix ix' : MappingIndex} {v : Version}

theorem remapClass_eq_ok {access base : String} {operands new : List String} :
    remapClass ix access base operands = .ok new ↔ base ≠ "mutable" ∧
      ∃ name, operands = [name] ∧ new = ((Declaration.ofClass access name).rename ix).tokens := by
  unfold remapClass
  split
  · rename_i name
    split_ifs with same
    · exact ⟨nofun, fun h => absurd same h.1⟩
    · rw [Except.ok.injEq]
      constructor
      · exact fun h => ⟨same, name, rfl, h.symm⟩
      · rintro ⟨_, _, one, rfl⟩
        obtain rfl := List.head_eq_of_cons_eq one
        rfl
  · rename_i other
    exact ⟨nofun, fun ⟨_, name, one, _⟩ => absurd one (other name)⟩

theorem remapMember_eq_ok (kind : MemberKind) {access base : String}
    {operands new : List String} :
    remapMember ix access base kind.word kind operands = .ok new ↔
      ¬(kind = .method ∧ base = "mutable") ∧ ¬(kind = .field ∧ base = "extendable") ∧
      ∃ owner name descriptor, operands = [owner, name, descriptor] ∧
        new = ((Declaration.ofMember kind access owner name descriptor).rename ix).tokens := by
  unfold remapMember
  split
  · rename_i owner name descriptor
    split_ifs with method field
    · exact ⟨nofun, fun h => absurd method h.1⟩
    · exact ⟨nofun, fun h => absurd field h.2.1⟩
    · rw [Except.ok.injEq]
      constructor
      · exact fun h => ⟨method, field, owner, name, descriptor, rfl, h.symm⟩
      · rintro ⟨_, _, _, _, _, three, rfl⟩
        obtain ⟨rfl, two⟩ := List.cons.inj three
        obtain ⟨rfl, one⟩ := List.cons.inj two
        obtain rfl := List.head_eq_of_cons_eq one
        rfl
  · rename_i other
    exact ⟨nofun, fun ⟨_, _, owner, name, descriptor, three, _⟩ =>
      absurd three (other owner name descriptor)⟩

theorem Declaration.known {d : Declaration} {base : String} (allowed : base ∈ d.bases) :
    ¬(base ≠ "accessible" ∧ base ≠ "extendable" ∧ base ≠ "mutable") := by
  rcases d with _ | ⟨_ | _, _, _, _, _⟩ <;> rcases List.mem_pair.mp allowed with rfl | rfl <;> decide

/-- Just the legal declarations are taken, and each is renamed. -/
theorem remapDeclaration_eq_ok {ts new : List String} :
    remapDeclaration ix v ts = .ok new ↔
      ∃ d : Declaration, d.Legal v ∧ ts = d.tokens ∧ new = (d.rename ix).tokens := by
  constructor
  · intro h
    rcases ts with _ | ⟨access, rest⟩
    · exact nomatch h
    obtain ⟨base, based, done⟩ := except_bind_eq_ok.mp h
    split_ifs at done with unknown
    have known : base = "accessible" ∨ base = "extendable" ∨ base = "mutable" := by
      by_contra none
      simp only [not_or] at none
      exact unknown none
    rcases rest with _ | ⟨kind, operands⟩
    · exact nomatch done
    dsimp only at done
    split_ifs at done with isClass isMethod isField
    · subst isClass
      obtain ⟨mutable, name, rfl, rfl⟩ := remapClass_eq_ok.mp done
      have allowed : base = "accessible" ∨ base = "extendable" := by tauto
      exact ⟨.ofClass access name, ⟨base, List.mem_pair.mpr allowed, based⟩, rfl, rfl⟩
    · subst isMethod
      obtain ⟨mutable, -, owner, name, descriptor, rfl, rfl⟩ :=
        (remapMember_eq_ok .method).mp done
      have allowed : base = "accessible" ∨ base = "extendable" := by tauto
      exact ⟨.ofMember .method access owner name descriptor,
        ⟨base, List.mem_pair.mpr allowed, based⟩, rfl, rfl⟩
    · subst isField
      obtain ⟨-, extendable, owner, name, descriptor, rfl, rfl⟩ :=
        (remapMember_eq_ok .field).mp done
      have allowed : base = "accessible" ∨ base = "mutable" := by tauto
      exact ⟨.ofMember .field access owner name descriptor,
        ⟨base, List.mem_pair.mpr allowed, based⟩, rfl, rfl⟩
  · rintro ⟨d, ⟨base, allowed, based⟩, rfl, rfl⟩
    have known := Declaration.known allowed
    rcases d with ⟨access, name⟩ | ⟨_ | _, access, owner, name, descriptor⟩
    · refine except_bind_eq_ok.mpr ⟨base, based, ?_⟩
      rw [if_neg known]
      refine remapClass_eq_ok.mpr ⟨?_, name, rfl, rfl⟩
      rcases List.mem_pair.mp allowed with rfl | rfl <;> decide
    · refine except_bind_eq_ok.mpr ⟨base, based, ?_⟩
      rw [if_neg known]
      refine (remapMember_eq_ok .field).mpr
        ⟨nofun, fun extendable => ?_, owner, name, descriptor, rfl, rfl⟩
      rcases List.mem_pair.mp allowed with rfl | rfl <;> exact absurd extendable.2 (by decide)
    · refine except_bind_eq_ok.mpr ⟨base, based, ?_⟩
      rw [if_neg known]
      refine (remapMember_eq_ok .method).mpr
        ⟨fun mutable => ?_, nofun, owner, name, descriptor, rfl, rfl⟩
      rcases List.mem_pair.mp allowed with rfl | rfl <;> exact absurd mutable.2 (by decide)

/-! The verdict on a text does not come from the table. -/

section Verdict

variable {α β γ δ : Type}

/-- What is told of an outcome without what was made. -/
def verdict (x : Except Error α) : Except Error Unit := x.map fun _ => ()

theorem map_bind_congr {ε : Type} {x y : Except ε α} {f g : α → Except ε β} {h : β → γ}
    {k : α → δ} (same : x.map k = y.map k)
    (next : ∀ a b, x = .ok a → y = .ok b → k a = k b → (f a).map h = (g b).map h) :
    (x >>= f).map h = (y >>= g).map h := by
  rcases x with e | a <;> rcases y with e' | b
  · exact congrArg Except.error (Except.error.inj same)
  · exact nomatch same
  · exact nomatch same
  · exact next a b rfl rfl (Except.ok.inj same)

theorem map_remapClass (ix ix' : MappingIndex) (access base : String) (operands : List String) :
    (remapClass ix access base operands).map (fun _ => ()) =
      (remapClass ix' access base operands).map fun _ => () := by
  unfold remapClass
  split
  · split_ifs <;> rfl
  · rfl

theorem map_remapMember (ix ix' : MappingIndex) (access base word : String) (kind : MemberKind)
    (operands : List String) :
    (remapMember ix access base word kind operands).map (fun _ => ()) =
      (remapMember ix' access base word kind operands).map fun _ => () := by
  unfold remapMember
  split
  · split_ifs <;> rfl
  · rfl

theorem map_remapDeclaration (ix ix' : MappingIndex) (v : Version) (ts : List String) :
    (remapDeclaration ix v ts).map (fun _ => ()) =
      (remapDeclaration ix' v ts).map fun _ => () := by
  rcases ts with _ | ⟨access, rest⟩
  · rfl
  refine map_bind_congr (k := id) rfl fun base base' based based' same => ?_
  obtain rfl : base = base' := same
  split_ifs with unknown
  · rfl
  rcases rest with _ | ⟨kind, operands⟩
  · rfl
  dsimp only
  split_ifs
  · exact map_remapClass ix ix' access base operands
  · exact map_remapMember ix ix' access base kind .method operands
  · exact map_remapMember ix ix' access base kind .field operands
  · rfl

theorem map_readHeader (same : ix.source = ix'.source) (number : ℕ) (ts : List String) :
    (readHeader ix number ts).map Prod.fst = (readHeader ix' number ts).map Prod.fst := by
  unfold readHeader
  split
  · rw [same]
    split_ifs <;> rfl
  · rfl

theorem map_remapLine (same : ix.source = ix'.source) (number : ℕ) (version : Option Version)
    (raw : List Char) :
    (remapLine ix number version raw).map Prod.fst =
      (remapLine ix' number version raw).map Prod.fst := by
  unfold remapLine
  dsimp only
  split_ifs
  · rfl
  cases version with
  | none =>
    exact map_bind_congr (map_readHeader same number _) fun a b _ _ agree =>
      congrArg (fun v => Except.ok (some v)) agree
  | some v =>
    generalize (words _).map String.ofList = ts
    have agree := map_remapDeclaration ix ix' v ts
    dsimp only
    cases first : remapDeclaration ix v ts <;> cases second : remapDeclaration ix' v ts <;>
      rw [first, second] at agree
    · exact congrArg (fun fault => Except.error (Error.malformed number fault)) (Except.error.inj agree)
    · exact nomatch agree
    · exact nomatch agree
    · rfl

theorem verdict_remapLines (same : ix.source = ix'.source) (number : ℕ)
    (version : Option Version) (lines : List (List Char)) :
    verdict (remapLines ix number version lines) =
      verdict (remapLines ix' number version lines) := by
  -- Both runs know the same version after each line, and go on alike.
  induction lines generalizing number version with
  | nil => cases version <;> rfl
  | cons raw lines ih =>
    rw [remapLines_cons, remapLines_cons]
    refine map_bind_congr (map_remapLine same number version raw) fun a b _ _ agree => ?_
    rw [agree]
    exact map_bind_congr (ih (number + 1) b.1) fun _ _ _ _ _ => rfl

theorem verdict_remap (same : ix.source = ix'.source) (bytes : Bytes) :
    verdict (remap ix bytes) = verdict (remap ix' bytes) := by
  unfold remap
  split
  · rfl
  · exact map_bind_congr (verdict_remapLines same 1 none _) fun _ _ _ _ _ => rfl

end Verdict

/-! Lines. -/

/-- The words before the comment. -/
def tokens (line : List Char) : List String :=
  (words (line.takeWhile (· ≠ '#'))).map String.ofList

/-- The comment, which is empty where there is none. -/
def comment (line : List Char) : List Char := line.dropWhile (· ≠ '#')

/-- The line without the end that it has in some files. -/
def stripped (line : List Char) : List Char := (dropEnd? ['\r'] line).getD line

theorem tokens_stripped (line : List Char) : tokens (stripped line) = tokens line := by
  obtain ⟨tail, split, rfl | rfl⟩ := getD_dropEnd? line
  · rw [List.append_nil] at split
    exact congrArg tokens split
  · have split' : line = stripped line ++ ['\r'] := split.symm
    nth_rewrite 2 [split']
    unfold tokens
    rw [List.takeWhile_append]
    -- The carriage return is blank behind the words, or it is part of the comment.
    split_ifs with whole
    · have all := List.takeWhile_prefix (fun c => decide (c ≠ '#')) |>.eq_of_length whole
      rw [all]
      exact congrArg (List.map String.ofList) (words_append_blank _ (by decide)).symm
    · rfl

theorem comment_stripped (line : List Char) : comment (stripped line) = stripped (comment line) := by
  unfold stripped
  cases cut : dropEnd? ['\r'] line with
  | none =>
    have uncut : dropEnd? ['\r'] (comment line) = none := by
      rw [Option.eq_none_iff_forall_ne_some]
      intro c found
      have ends : line = (line.takeWhile (· ≠ '#') ++ c) ++ ['\r'] := by
        rw [List.append_assoc, ← dropEnd?_eq_some_iff.mp found]
        exact (List.takeWhile_append_dropWhile ..).symm
      exact nomatch cut.symm.trans (dropEnd?_eq_some_iff.mpr ends)
    rw [uncut]
    rfl
  | some front =>
    rw [dropEnd?_eq_some_iff.mp cut, Option.getD_some]
    unfold comment
    rw [List.dropWhile_append]
    split_ifs with uncommented
    · rw [List.isEmpty_iff.mp uncommented]
      rfl
    · rw [dropEnd?_eq_some_iff.mpr rfl]
      rfl

theorem remapLine_eq (ix : MappingIndex) (number : ℕ) (version : Option Version)
    (raw : List Char) :
    remapLine ix number version raw =
      if tokens raw = [] then .ok (version, String.ofList (stripped raw))
      else match version with
        | none => do
          let (v, new) ← readHeader ix number (tokens raw)
          return (some v, withComment (stripped (comment raw)) new)
        | some v =>
          match remapDeclaration ix v (tokens raw) with
          | .ok new => .ok (version, withComment (stripped (comment raw)) new)
          | .error fault => .error (.malformed number fault) := by
  rw [← tokens_stripped, ← comment_stripped]
  simp only [← List.isEmpty_iff]
  rfl

theorem mem_comment {line : List Char} {c : Char} (inside : c ∈ comment line) : c ∈ line :=
  (List.dropWhile_suffix _).subset inside

theorem mem_stripped {line : List Char} {c : Char} (inside : c ∈ stripped line) : c ∈ line := by
  obtain ⟨tail, split, -⟩ := getD_dropEnd? line
  rw [← split]
  exact List.mem_append_left tail inside

theorem isToken_of_mem_tokens {line : List Char} {token : String} (member : token ∈ tokens line) :
    IsToken token := by
  obtain ⟨w, listed, rfl⟩ := List.mem_map.mp member
  rw [words_eq_filter_splitOnP, List.mem_filter, decide_eq_true_eq] at listed
  refine ⟨fun empty => listed.2 (String.ofList_eq_empty_iff.mp empty), fun c inside => ?_⟩
  rw [String.toList_ofList] at inside
  obtain ⟨before, solid⟩ := mem_splitOnP listed.1 inside
  exact ⟨solid, of_decide_eq_true (List.mem_takeWhile_imp (p := fun x => decide (x ≠ '#')) before)⟩

theorem comment_eq_nil_or (line : List Char) :
    comment line = [] ∨ ∃ rest, comment line = '#' :: rest := by
  have mark := List.head?_dropWhile_not (fun c => decide (c ≠ '#')) line
  unfold comment
  cases cut : line.dropWhile (· ≠ '#') with
  | nil => exact .inl rfl
  | cons c rest =>
    rw [cut, List.head?_cons] at mark
    obtain rfl : c = '#' := not_not.mp (of_decide_eq_false mark)
    exact .inr ⟨rest, rfl⟩

theorem tokens_append {front : List Char} (free : ∀ c ∈ front, c ≠ '#') (line : List Char) :
    tokens (front ++ comment line) = (words front).map String.ofList ∧
      comment (front ++ comment line) = comment line := by
  have all : ∀ c ∈ front, decide (c ≠ '#') = true := fun c member => decide_eq_true (free c member)
  have behind : (comment line).takeWhile (· ≠ '#') = [] ∧
      (comment line).dropWhile (· ≠ '#') = comment line := by
    rcases comment_eq_nil_or line with none | ⟨rest, mark⟩
    · rw [none]
      exact ⟨rfl, rfl⟩
    · rw [mark]
      exact ⟨rfl, rfl⟩
  constructor
  · have taken : (front ++ comment line).takeWhile (· ≠ '#') = front := by
      rw [List.takeWhile_append_of_pos all, behind.1, List.append_nil]
    exact congrArg (fun l => (words l).map String.ofList) taken
  · exact (List.dropWhile_append_of_pos all).trans behind.2

theorem toList_withComment {ts : List String} (some : ts ≠ []) (c : List Char) :
    (withComment c ts).toList = (tabbed ts).toList ++ if c = [] then [] else '\t' :: c := by
  unfold withComment
  cases c with
  | nil => exact (List.append_nil _).symm
  | cons x c =>
    rw [List.isEmpty_cons, if_neg Bool.false_ne_true, if_neg (List.cons_ne_nil x c), tabbed,
      String.intercalate_append_of_ne_nil some (List.cons_ne_nil _ _),
      String.intercalate_singleton, String.append_assoc, String.toList_append,
      String.toList_append]
    exact congrArg ((tabbed ts).toList ++ '\t' :: ·) String.toList_ofList

/-- A line that is written is read again as its words and its comment. -/
theorem read_withComment {ts : List String} (some : ts ≠ [])
    (solid : ∀ token ∈ ts, IsToken token) (line : List Char) :
    tokens (withComment (comment line) ts).toList = ts ∧
      comment (withComment (comment line) ts).toList = comment line := by
  have free : ∀ c ∈ (tabbed ts).toList, c ≠ '#' := fun c inside =>
    (mem_tabbed solid inside).elim (fun tab => tab ▸ by decide) And.right
  rw [toList_withComment some]
  split_ifs with none
  · have plain := tokens_append free line
    rw [none, words_tabbed solid some] at plain
    rwa [none]
  -- The tab before a comment is blank, and no part of a word.
  · have behind : ∀ c ∈ (tabbed ts).toList ++ ['\t'], c ≠ '#' := by
      intro c inside
      rcases List.mem_append.mp inside with inside | tab
      · exact free c inside
      · exact List.mem_singleton.mp tab ▸ by decide
    have whole := tokens_append behind line
    rwa [words_append_blank _ (by decide), words_tabbed solid some, List.append_assoc] at whole

/-! Runs over the lines. -/

def Version.word : Version → String
  | .v1 => "v1"
  | .v2 => "v2"

def header (v : Version) (ns : String) : List String := ["accessWidener", v.word, ns]

/-- A line behind the header that is taken. -/
def Taken (v : Version) (line : List Char) : Prop :=
  tokens line = [] ∨ ∃ d : Declaration, d.Legal v ∧ tokens line = d.tokens

/-- A line behind the header, and what is written for it. -/
def Written (ix : MappingIndex) (v : Version) (line : List Char) (out : String) : Prop :=
  tokens line = [] ∧ out = String.ofList (stripped line) ∨
    ∃ d : Declaration, d.Legal v ∧ tokens line = d.tokens ∧
      out = withComment (comment (stripped line)) (d.rename ix).tokens

theorem Version.word_ne {version : String} (first : version ≠ "v1") (second : version ≠ "v2")
    (v : Version) : version ≠ v.word := by
  cases v with
  | v1 => exact first
  | v2 => exact second

theorem readHeader_eq_ok {number : ℕ} {ts new : List String} :
    readHeader ix number ts = .ok (v, new) ↔ ts = header v ix.source ∧ new = header v ix.target := by
  unfold readHeader
  split
  · rename_i magic version ns
    simp only [header, List.cons.injEq, and_true]
    split_ifs with other first foreign second foreign foreign
    · exact ⟨nofun, fun h => absurd h.1.1 other⟩
    · exact ⟨nofun, fun h => absurd h.1.2.2 foreign⟩
    · show Except.ok (Version.v1, [magic, version, ix.target]) = _ ↔ _
      rw [Except.ok.injEq, Prod.mk.injEq, not_not.mp other, not_not.mp foreign, first]
      cases v <;> simp [Version.word, eq_comm]
    · exact ⟨nofun, fun h => absurd h.1.2.2 foreign⟩
    · show Except.ok (Version.v2, [magic, version, ix.target]) = _ ↔ _
      rw [Except.ok.injEq, Prod.mk.injEq, not_not.mp other, not_not.mp foreign, second]
      cases v <;> simp [Version.word, eq_comm]
    · exact ⟨nofun, fun h => absurd h.1.2.2 foreign⟩
    · exact ⟨nofun, fun h => absurd h.1.2.1 (Version.word_ne first second v)⟩
  · rename_i other
    exact ⟨nofun, fun h => absurd h.1 (other _ _ _)⟩

theorem remapLine_some_eq_ok {number : ℕ} {line : List Char} {w : Option Version} {out : String} :
    remapLine ix number (some v) line = .ok (w, out) ↔ w = some v ∧ Written ix v line out := by
  rw [remapLine_eq, ← comment_stripped]
  split_ifs with blank
  · rw [Except.ok.injEq, Prod.mk.injEq]
    constructor
    · rintro ⟨rfl, rfl⟩
      exact ⟨rfl, .inl ⟨blank, rfl⟩⟩
    · rintro ⟨rfl, ⟨-, rfl⟩ | ⟨d, -, words, -⟩⟩
      · exact ⟨rfl, rfl⟩
      · exact absurd (words.symm.trans blank) d.tokens_ne_nil
  · dsimp only
    cases renamed : remapDeclaration ix v (tokens line) with
    | error fault =>
      refine ⟨nofun, ?_⟩
      rintro ⟨-, ⟨none, -⟩ | ⟨d, legal, words, -⟩⟩
      · exact absurd none blank
      · exact nomatch renamed.symm.trans (remapDeclaration_eq_ok.mpr ⟨d, legal, words, rfl⟩)
    | ok new =>
      rw [Except.ok.injEq, Prod.mk.injEq]
      constructor
      · rintro ⟨rfl, rfl⟩
        obtain ⟨d, legal, words, rfl⟩ := remapDeclaration_eq_ok.mp renamed
        exact ⟨rfl, .inr ⟨d, legal, words, rfl⟩⟩
      · rintro ⟨rfl, ⟨none, -⟩ | ⟨d, legal, words, rfl⟩⟩
        · exact absurd none blank
        · have same := renamed.symm.trans (remapDeclaration_eq_ok.mpr ⟨d, legal, words, rfl⟩)
          exact ⟨rfl, congrArg _ (Except.ok.inj same)⟩

theorem remapLines_some_eq_ok {number : ℕ} {lines : List (List Char)} {outs : List String} :
    remapLines ix number (some v) lines = .ok outs ↔ List.Forall₂ (Written ix v) lines outs := by
  induction lines generalizing number outs with
  | nil =>
    rw [List.forall₂_nil_left_iff]
    exact ⟨fun h => (Except.ok.inj h).symm, fun h => h ▸ rfl⟩
  | cons line lines ih =>
    rw [remapLines_cons_eq_ok, List.forall₂_cons_left_iff]
    constructor
    · rintro ⟨⟨w, out⟩, first, outs, others, rfl⟩
      obtain ⟨rfl, written⟩ := remapLine_some_eq_ok.mp first
      exact ⟨out, outs, written, ih.mp others, rfl⟩
    · rintro ⟨out, outs, written, others, rfl⟩
      exact ⟨(some v, out), remapLine_some_eq_ok.mpr ⟨rfl, written⟩, outs, ih.mpr others, rfl⟩

/-- Lines that say nothing, the header, and the lines behind it. -/
theorem remapLines_none_eq_ok {number : ℕ} {lines : List (List Char)} {outs : List String} :
    remapLines ix number none lines = .ok outs ↔
      ∃ v blanks head rest outs', lines = blanks ++ head :: rest ∧
        (∀ line ∈ blanks, tokens line = []) ∧ tokens head = header v ix.source ∧
        outs = blanks.map (fun line => String.ofList (stripped line)) ++
          withComment (comment (stripped head)) (header v ix.target) :: outs' ∧
        List.Forall₂ (Written ix v) rest outs' := by
  -- The header is the first line that has words; until then the version is unknown.
  induction lines generalizing number outs with
  | nil =>
    exact ⟨nofun, fun ⟨_, _, _, _, _, split, _⟩ =>
      absurd split.symm (List.append_ne_nil_of_right_ne_nil _ (List.cons_ne_nil _ _))⟩
  | cons line lines ih =>
    rw [remapLines_cons_eq_ok, remapLine_eq, ← comment_stripped]
    split_ifs with blank
    · constructor
      · rintro ⟨_, first, outs, others, rfl⟩
        obtain rfl := Except.ok.inj first
        obtain ⟨v, blanks, head, rest, outs', rfl, empty, named, rfl, written⟩ := ih.mp others
        exact ⟨v, line :: blanks, head, rest, outs', rfl, List.forall_mem_cons.mpr ⟨blank, empty⟩,
          named, rfl, written⟩
      · rintro ⟨v, blanks, head, rest, outs', split, empty, named, rfl, written⟩
        rcases blanks with _ | ⟨first, blanks⟩
        · obtain ⟨rfl, -⟩ := List.cons.inj split
          exact nomatch blank.symm.trans named
        · obtain ⟨rfl, rfl⟩ := List.cons.inj split
          exact ⟨_, rfl, _, ih.mpr ⟨v, blanks, head, rest, outs', rfl,
            (List.forall_mem_cons.mp empty).2, named, rfl, written⟩, rfl⟩
    · dsimp only
      constructor
      · rintro ⟨_, first, outs, others, rfl⟩
        obtain ⟨⟨v, new⟩, read, first⟩ := except_bind_eq_ok.mp first
        obtain rfl := Except.ok.inj first
        obtain ⟨named, rfl⟩ := readHeader_eq_ok.mp read
        exact ⟨v, [], line, lines, outs, rfl, nofun, named, rfl, remapLines_some_eq_ok.mp others⟩
      · rintro ⟨v, blanks, head, rest, outs', split, empty, named, rfl, written⟩
        rcases blanks with _ | ⟨first, blanks⟩
        · obtain ⟨rfl, rfl⟩ := List.cons.inj split
          exact ⟨_, except_bind_eq_ok.mpr ⟨(v, _), readHeader_eq_ok.mpr ⟨named, rfl⟩, rfl⟩, outs',
            remapLines_some_eq_ok.mpr written, rfl⟩
        · obtain ⟨rfl, -⟩ := List.cons.inj split
          exact absurd (empty line List.mem_cons_self) blank

theorem exists_written (ix : MappingIndex) {rest : List (List Char)} (taken : ∀ line ∈ rest, Taken v line) :
    ∃ outs, List.Forall₂ (Written ix v) rest outs := by
  induction rest with
  | nil => exact ⟨[], .nil⟩
  | cons line rest ih =>
    obtain ⟨first, others⟩ := List.forall_mem_cons.mp taken
    obtain ⟨outs, written⟩ := ih others
    rcases first with blank | ⟨d, legal, words⟩
    · exact ⟨_, .cons (.inl ⟨blank, rfl⟩) written⟩
    · exact ⟨_, .cons (.inr ⟨d, legal, words, rfl⟩) written⟩

theorem remap_bytesOf_eq_ok {text : String} {out : Bytes} :
    remap ix (bytesOf text) = .ok out ↔
      ∃ outs, remapLines ix 1 none (fields '\n' text.toList) = .ok outs ∧
        out = bytesOf ("\n".intercalate outs) := by
  unfold remap
  nth_rewrite 1 [bytesOf]
  rw [Utf8.decode?_encode]
  refine except_bind_eq_ok.trans (exists_congr fun outs => and_congr_right fun _ => ?_)
  exact ⟨fun done => (Except.ok.inj done).symm, fun same => same ▸ rfl⟩

theorem exists_remap {text : String} {blanks rest : List (List Char)} {head : List Char}
    (split : fields '\n' text.toList = blanks ++ head :: rest)
    (blank : ∀ line ∈ blanks, tokens line = []) (named : tokens head = header v ix.source)
    (taken : ∀ line ∈ rest, Taken v line) : ∃ out, remap ix (bytesOf text) = .ok out := by
  obtain ⟨outs, written⟩ := exists_written ix taken
  exact ⟨_, remap_bytesOf_eq_ok.mpr
    ⟨_, remapLines_none_eq_ok.mpr ⟨v, blanks, head, rest, outs, split, blank, named, rfl, written⟩,
      rfl⟩⟩

/-! The names that a table gives. -/

/-- The names of the target can stand in a line as one word. -/
structure Solid (ix : MappingIndex) : Prop where
  target : IsToken ix.target
  classes : ∀ name entry, ix.classes.get? name = some entry → IsToken entry.target
  members : ∀ name entry, ix.classes.get? name = some entry →
    ∀ kind, ∀ m ∈ entry.members kind, IsToken m.targetName

theorem solid_of_built {t : MappingTable} {s d : ℕ} (built : MappingIndex.Built t s d ix)
    (target : IsToken ix.target) (classes : ∀ c ∈ t.classes, IsToken (c.name d))
    (members : ∀ c ∈ t.classes, ∀ kind, ∀ m ∈ c.members kind, IsToken (m.name d)) : Solid ix := by
  have row {name : String} {entry : ClassEntry} (found : ix.classes.get? name = some entry) :
      ∃ c ∈ t.classes, entry = MappingIndex.classEntry t s d c := by
    rw [built.classes] at found
    obtain ⟨c, listed, same⟩ := List.mem_map.mp (Dict.mem_of_get?_ofList found)
    exact ⟨c, listed, (Prod.mk.inj same).2.symm⟩
  refine ⟨target, fun name entry found => ?_, fun name entry found kind m listed => ?_⟩
  · obtain ⟨c, listed, rfl⟩ := row found
    exact classes c listed
  · obtain ⟨c, listed', rfl⟩ := row found
    rw [MappingIndex.members_classEntry] at listed
    obtain ⟨m, listed'', rfl⟩ := List.mem_map.mp listed
    exact members c listed' kind m listed''

theorem forall_mem_renameFrom {P : Char → Prop} {f : String → Option String}
    (mapped : ∀ name new, f name = some new → ∀ c ∈ new.toList, P c)
    {inside : Option (List Char)} {s : List Char} (before : ∀ c ∈ inside.getD [], P c)
    (after : ∀ c ∈ s, P c) : ∀ c ∈ Descriptor.renameFrom f inside s, P c := by
  -- A name that is being read, backwards in `inside`, is written back later or replaced.
  induction s generalizing inside with
  | nil =>
    cases inside with
    | none => exact List.forall_mem_nil P
    | some read => exact fun c member => before c (List.mem_reverse.mp member)
  | cons x s ih =>
    obtain ⟨first, others⟩ := List.forall_mem_cons.mp after
    cases inside with
    | none =>
      rw [Descriptor.renameFrom]
      refine List.forall_mem_cons.mpr ⟨first, ih ?_ others⟩
      split_ifs <;> exact List.forall_mem_nil P
    | some read =>
      rw [Descriptor.renameFrom]
      split_ifs with close
      · intro c member
        rcases List.mem_append.mp member with name | later
        · unfold Descriptor.substitute at name
          cases found : f (String.ofList read.reverse) with
          | none =>
            rw [found, Option.getD_none, String.toList_ofList] at name
            exact before c (List.mem_reverse.mp name)
          | some new =>
            rw [found] at name
            exact mapped _ new found c name
        · rcases List.mem_cons.mp later with rfl | later
          · exact close ▸ first
          · have closed : ∀ c ∈ (none : Option (List Char)).getD [], P c := List.forall_mem_nil P
            exact ih closed others c later
      · exact ih (List.forall_mem_cons.mpr ⟨first, before⟩) others

section

variable (solid : Solid ix)

include solid

theorem isToken_mapClass {name : String} (h : IsToken name) :
    IsToken ((ix.mapClass name).getD name) := by
  unfold MappingIndex.mapClass
  cases found : ix.classes.get? name with
  | none => exact h
  | some entry => exact solid.classes name entry found

theorem isToken_mapMember (kind : MemberKind) (owner descriptor : String) {name : String}
    (h : IsToken name) : IsToken ((ix.mapMember kind owner name descriptor).getD name) := by
  unfold MappingIndex.mapMember MappingIndex.find?
  cases found : ix.classes.get? owner with
  | none => exact h
  | some entry =>
    rw [Option.bind_some]
    cases member : entry.find? kind name descriptor with
    | none => exact h
    | some m =>
      have listed := List.mem_reverse.mp (List.mem_of_find?_eq_some member)
      exact solid.members owner entry found kind m listed

theorem isToken_mapDescriptor {descriptor : String} (h : IsToken descriptor) :
    IsToken (ix.mapDescriptor descriptor) := by
  have mapped (name new : String) (found : ix.mapClass name = some new) :
      ∀ c ∈ new.toList, isBlank c = false ∧ c ≠ '#' := by
    obtain ⟨entry, listed, rfl⟩ := Option.map_eq_some_iff.mp found
    exact (solid.classes name entry listed).2
  unfold MappingIndex.mapDescriptor Descriptor.rename
  constructor
  · obtain ⟨c, s, text⟩ := List.exists_cons_of_ne_nil (mt String.toList_eq_nil_iff.mp h.1)
    rw [text, Descriptor.renameFrom]
    exact fun empty => List.cons_ne_nil _ _ (String.ofList_eq_empty_iff.mp empty)
  · rw [String.toList_ofList]
    exact forall_mem_renameFrom mapped (List.forall_mem_nil _) h.2

theorem isToken_rename {d : Declaration} (all : ∀ token ∈ d.tokens, IsToken token) :
    ∀ token ∈ (d.rename ix).tokens, IsToken token := by
  cases d with
  | ofClass access name =>
    simp only [Declaration.rename, Declaration.tokens, List.forall_mem_cons] at all ⊢
    obtain ⟨access, word, name, none⟩ := all
    exact ⟨access, word, isToken_mapClass solid name, none⟩
  | ofMember kind access owner name descriptor =>
    simp only [Declaration.rename, Declaration.tokens, List.forall_mem_cons] at all ⊢
    obtain ⟨access, word, owner', name, descriptor, none⟩ := all
    exact ⟨access, word, isToken_mapClass solid owner', isToken_mapMember solid kind _ _ name,
      isToken_mapDescriptor solid descriptor, none⟩

theorem isToken_of_words {line : List Char} {d : Declaration} (words : tokens line = d.tokens) :
    ∀ token ∈ (d.rename ix).tokens, IsToken token :=
  isToken_rename solid fun _ member => isToken_of_mem_tokens (words ▸ member)

end

theorem isToken_header (v : Version) {ns : String} (h : IsToken ns) :
    ∀ token ∈ header v ns, IsToken token := by
  have magic : IsToken "accessWidener" := by simp [IsToken, isBlank]
  have word : IsToken v.word := by cases v <;> simp [Version.word, IsToken, isBlank]
  exact List.forall_mem_cons.mpr ⟨magic, List.forall_mem_cons.mpr ⟨word,
    List.forall_mem_singleton.mpr h⟩⟩

/-- A line behind the header, before and after. -/
def Image (ix : MappingIndex) (v : Version) (line out : List Char) : Prop :=
  tokens line = [] ∧ out = stripped line ∨
    ∃ d : Declaration, d.Legal v ∧ tokens line = d.tokens ∧ tokens out = (d.rename ix).tokens ∧
      comment out = stripped (comment line)

theorem Image.taken {line out : List Char} (h : Image ix v line out) : Taken v out := by
  rcases h with ⟨blank, rfl⟩ | ⟨d, legal, -, words, -⟩
  · exact .inl ((tokens_stripped line).trans blank)
  · exact .inr ⟨d.rename ix, legal.rename ix, words⟩

theorem Written.image (solid : Solid ix) {line : List Char} {out : String}
    (h : Written ix v line out) : Image ix v line out.toList := by
  rcases h with ⟨blank, rfl⟩ | ⟨d, legal, words, rfl⟩
  · exact .inl ⟨blank, String.toList_ofList⟩
  · obtain ⟨read, commented⟩ := read_withComment (d.rename ix).tokens_ne_nil
      (isToken_of_words solid words) (stripped line)
    exact .inr ⟨d, legal, words, read, commented.trans (comment_stripped line)⟩

theorem not_mem_withComment {ts : List String} (some : ts ≠ [])
    (solid : ∀ token ∈ ts, IsToken token) {line : List Char} (oneLine : '\n' ∉ line) :
    '\n' ∉ (withComment (comment (stripped line)) ts).toList := by
  rw [toList_withComment some, List.mem_append, not_or]
  constructor
  · exact fun inside => (mem_tabbed solid inside).elim (by decide) fun h => absurd h.1 (by decide)
  · split_ifs
    · exact List.not_mem_nil
    · refine List.not_mem_cons_of_ne_of_not_mem (by decide) fun inside => ?_
      exact oneLine (mem_stripped (mem_comment inside))

theorem Written.oneLine (solid : Solid ix) {line : List Char} {out : String}
    (h : Written ix v line out) (oneLine : '\n' ∉ line) : '\n' ∉ out.toList := by
  rcases h with ⟨-, rfl⟩ | ⟨d, -, words, rfl⟩
  · rw [String.toList_ofList]
    exact fun inside => oneLine (mem_stripped inside)
  · exact not_mem_withComment (d.rename ix).tokens_ne_nil (isToken_of_words solid words) oneLine

theorem fields_intercalate {outs : List String} (some : outs ≠ [])
    (oneLine : ∀ out ∈ outs, '\n' ∉ out.toList) :
    fields '\n' ("\n".intercalate outs).toList = outs.map String.toList := by
  rw [fields_eq_splitOn, String.toList_intercalate]
  refine List.splitOn_intercalate '\n' (fun l member => ?_) (mt List.map_eq_nil_iff.mp some)
  obtain ⟨out, listed, rfl⟩ := List.mem_map.mp member
  exact oneLine out listed

theorem fields_written (solid : Solid ix) {blanks rest : List (List Char)} {head : List Char}
    (oneLine : ∀ line ∈ blanks ++ head :: rest, '\n' ∉ line) {outs : List String}
    (written : List.Forall₂ (Written ix v) rest outs) :
    fields '\n' ("\n".intercalate (blanks.map (fun line => String.ofList (stripped line)) ++
        withComment (comment (stripped head)) (header v ix.target) :: outs)).toList =
      blanks.map stripped ++ (withComment (comment (stripped head)) (header v ix.target)).toList ::
        outs.map String.toList := by
  obtain ⟨before, others⟩ := List.forall_mem_append.mp oneLine
  obtain ⟨here, after⟩ := List.forall_mem_cons.mp others
  rw [fields_intercalate (List.append_ne_nil_of_right_ne_nil _ (List.cons_ne_nil _ _)),
    List.map_append, List.map_map, List.map_cons]
  · simp only [Function.comp_def, String.toList_ofList]
  · refine List.forall_mem_append.mpr ⟨fun out member => ?_, List.forall_mem_cons.mpr
      ⟨not_mem_withComment (List.cons_ne_nil _ _) (isToken_header v solid.target) here,
        fun out member => ?_⟩⟩
    · obtain ⟨line, listed, rfl⟩ := List.mem_map.mp member
      rw [String.toList_ofList]
      exact fun inside => before line listed (mem_stripped inside)
    · obtain ⟨line, listed, written⟩ := exists_of_mem_right written member
      exact written.oneLine solid (after line listed)

/-- The verdict on a text is the same for every table of one source namespace. A text that is
accepted comes out line by line, if the table gives names that can be read again: lines that say
nothing stay, the header names the target namespace, and the names in each declaration are those of
the target; a carriage return at the end is dropped. It is accepted again by every table that starts
where this one ends. -/
theorem remap_linewise (ix : MappingIndex) (bytes : Bytes) :
    (∀ ix', ix.source = ix'.source → verdict (remap ix bytes) = verdict (remap ix' bytes)) ∧
    ∀ text out, bytes = bytesOf text → Solid ix → remap ix bytes = .ok out →
      ∃ written v blanks head rest head' rest', out = bytesOf written ∧
        (fields '\n' written.toList).length = (fields '\n' text.toList).length ∧
        fields '\n' text.toList = blanks ++ head :: rest ∧
        fields '\n' written.toList = blanks.map stripped ++ head' :: rest' ∧
        (∀ line ∈ blanks, tokens line = []) ∧
        tokens head = header v ix.source ∧ tokens head' = header v ix.target ∧
        comment head' = stripped (comment head) ∧ List.Forall₂ (Image ix v) rest rest' ∧
        ∀ ix', ix'.source = ix.target → ∃ out', remap ix' out = .ok out' := by
  refine ⟨fun ix' same => verdict_remap same bytes, ?_⟩
  rintro text out rfl solid accepted
  obtain ⟨outs, lines, rfl⟩ := remap_bytesOf_eq_ok.mp accepted
  obtain ⟨v, blanks, head, rest, outs', split, blank, named, rfl, written⟩ :=
    remapLines_none_eq_ok.mp lines
  have split' := fields_written solid (fun line member => not_mem_of_mem_fields (split ▸ member))
    written
  obtain ⟨named', commented⟩ := read_withComment (List.cons_ne_nil _ _)
    (isToken_header v solid.target) (stripped head)
  have images : List.Forall₂ (Image ix v) rest (outs'.map String.toList) :=
    List.forall₂_map_right_iff.mpr (written.imp fun _ _ => Written.image solid)
  refine ⟨_, v, blanks, head, rest, _, _, rfl, ?_, split, split', blank, named, named',
    commented.trans (comment_stripped head), images, fun ix' same => ?_⟩
  · rw [split', split, List.length_append, List.length_append, List.length_map, List.length_cons,
      List.length_cons, images.length_eq]
  · have titled := named'.trans (congrArg (header v) same.symm)
    refine exists_remap split' (fun line member => ?_) titled fun line member => ?_
    · obtain ⟨line, listed, rfl⟩ := List.mem_map.mp member
      exact (tokens_stripped line).trans (blank line listed)
    · obtain ⟨_, -, image⟩ := exists_of_mem_right images member
      exact image.taken

/-- A field whose type and owner are renamed, under a table that is made for it, under an empty one,
and once more. -/
theorem remap_linewise_field :
    let ix : MappingIndex := ⟨"a", "b", Dict.ofList [("A", ⟨"X", [⟨"f", "LA;", "g", "LX;"⟩], []⟩)],
      Dict.ofList [("X", "A")]⟩
    let text := "accessWidener v1 a\x0d\n# c\x0d\nmutable field A f LA; # d"
    let out := "accessWidener\tv1\tb\n# c\nmutable\tfield\tX\tg\tLX;\t# d"
    Solid ix ∧ remap ix (bytesOf text) = .ok (bytesOf out) ∧
      verdict (remap ⟨"a", "c", ∅, ∅⟩ (bytesOf text)) = .ok () ∧
      ∀ ix', ix'.source = "b" → ∃ out', remap ix' (bytesOf out) = .ok out' := by
  intro ix text out
  let t : MappingTable := ⟨["a", "b"], [⟨["A", "X"], [⟨"LA;", ["f", "g"]⟩], []⟩]⟩
  have built : MappingIndex.Built t 0 1 ix := ⟨by decide +kernel, by decide +kernel⟩
  have tokens : IsToken "b" ∧ IsToken "X" ∧ IsToken "g" := by simp [IsToken, isBlank]
  have solid : Solid ix := by
    refine solid_of_built built tokens.1 (List.forall_mem_singleton.mpr tokens.2.1)
      (List.forall_mem_singleton.mpr fun kind => ?_)
    cases kind with
    | field => exact List.forall_mem_singleton.mpr tokens.2.2
    | method => exact List.forall_mem_nil _
  have accepted : remap ix (bytesOf text) = .ok (bytesOf out) := by decide +kernel
  obtain ⟨same, linewise⟩ := remap_linewise ix (bytesOf text)
  obtain ⟨_, _, _, _, _, _, _, _, -, -, -, -, -, -, -, -, again⟩ :=
    linewise text (bytesOf out) rfl solid accepted
  refine ⟨solid, accepted, ?_, again⟩
  rw [← same ⟨"a", "c", ∅, ∅⟩ rfl, accepted]
  rfl

end AccessWidener

end ModRemap
