import Mathlib
import ModRemap.Proofs.DescriptorForms
import ModRemap.Proofs.RenamedSignatures

/-! The erasure of a signature is the descriptor left without type arguments. Renaming commutes with it
where the names of nested classes are mapped as the classes they are nested in. -/

namespace ModRemap

/-! ### Erasure -/

/-- The simple names up to the end of a class type, from the innermost on. -/
def TypeSuffix.simpleNames (outer : List (List Char)) : TypeSuffix → List (List Char)
  | .done => outer
  | .arguments _ more => more.simpleNames outer
  | .inner simple more => more.simpleNames (simple :: outer)

/-- Two erasures, one behind the other. -/
def appended (first second : Option (List Char)) : Option (List Char) :=
  first.bind fun text => second.map (text ++ ·)

/-- A class has its whole name, without arguments. A type variable is erased to nothing of its own. -/
def TypeSignature.erasure? : TypeSignature → Option (List Char)
  | .base c => some [c]
  | .parameter _ => none
  | .array element => appended (some ['[']) element.erasure?
  | .named name more => some ('L' :: nestedName name (more.simpleNames []) ++ [';'])

def eraseAll? : List TypeSignature → Option (List Char)
  | [] => some []
  | t :: ts => appended t.erasure? (eraseAll? ts)

def SignatureBody.erasure? : SignatureBody → Option (List Char)
  | .method parameters result [] =>
    appended (some ['(']) (appended (eraseAll? parameters) (appended (some [')']) result.erasure?))
  | .method _ _ (_ :: _) => none
  | .types all => eraseAll? all

/-- Nothing is said of formal type parameters, of thrown types, or of type variables outside of
arguments. -/
def Signature.erasure? (s : Signature) : Option (List Char) :=
  match s.parameters with
  | none | some [] => s.body.erasure?
  | some (_ :: _) => none

def Signature.erasureOf? (text : String) : Option String :=
  match parse text with
  | .error _ => none
  | .ok tree => tree.erasure?.map String.ofList

/-! ### Nested names -/

/-- The nested names in a class type outside of arguments: the whole outer name and the simple one. -/
def TypeSuffix.nested (name : List Char) (outer : List (List Char)) :
    TypeSuffix → List (List Char × List Char)
  | .done => []
  | .arguments _ more => more.nested name outer
  | .inner simple more => (nestedName name outer, simple) :: more.nested name (simple :: outer)

def TypeSignature.nested : TypeSignature → List (List Char × List Char)
  | .base _ => []
  | .parameter _ => []
  | .array element => element.nested
  | .named name more => more.nested name []

def SignatureBody.nested : SignatureBody → List (List Char × List Char)
  | .method parameters result _ => parameters.flatMap TypeSignature.nested ++ result.nested
  | .types all => all.flatMap TypeSignature.nested

/-- The class with the simple name inside the outer one is mapped into what the outer one is mapped
to, or neither is listed. -/
def Extends (f : String → Option String) (p : List Char × List Char) : Prop :=
  (∃ target simple, lookupName f p.1 = some target ∧
    lookupName f (p.1 ++ '$' :: p.2) = some (target ++ '$' :: simple)) ∨
  (lookupName f p.1 = none ∧ lookupName f (p.1 ++ '$' :: p.2) = none)

variable {f : String → Option String}

theorem substitute_eq_lookupName (name : List Char) :
    Descriptor.substitute f name = (lookupName f name).getD name := by
  rw [Descriptor.substitute, lookupName]
  cases f (String.ofList name) with
  | none => exact String.toList_ofList
  | some new => rfl

/-- The new simple names, from the innermost on. -/
def newNames (f : String → Option String) (name : List Char) : List (List Char) → List (List Char)
  | [] => []
  | simple :: outer => newName f name (simple :: outer) :: newNames f name outer

theorem simpleNames_withNames (name : List Char) : (more : TypeSuffix) → (outer : List (List Char)) →
    (more.withNames (newName f) name outer).simpleNames (newNames f name outer) =
      newNames f name (more.simpleNames outer)
  | .done, _ => rfl
  | .arguments _ more, outer => simpleNames_withNames name more outer
  | .inner simple more, outer => simpleNames_withNames name more (simple :: outer)

/-- The names put together by renaming are what the whole name is mapped to. -/
structure Whole (f : String → Option String) (name : List Char) (outer : List (List Char)) : Prop where
  mapped : mappedName f name outer =
    (lookupName f (nestedName name outer)).getD (nestedName name outer)
  nested : nestedName (newName f name []) (newNames f name outer) =
    (lookupName f (nestedName name outer)).getD (nestedName name outer)

theorem whole_nil (name : List Char) : Whole f name [] := ⟨rfl, rfl⟩

theorem Whole.cons {name simple : List Char} {outer : List (List Char)} (whole : Whole f name outer)
    (extends' : Extends f (nestedName name outer, simple)) : Whole f name (simple :: outer) := by
  obtain ⟨mapped, nested⟩ := whole
  rcases extends' with ⟨target, new, listed, inside⟩ | ⟨unlisted, outside⟩
  · have inside : lookupName f (nestedName name (simple :: outer)) = some (target ++ '$' :: new) :=
      inside
    rw [listed, Option.getD_some] at mapped nested
    have part : Text.dropStart? (target ++ ['$']) (target ++ '$' :: new) = some new :=
      Text.dropStart?_eq_some_iff.mpr (by rw [List.append_assoc, List.singleton_append])
    have own : newName f name (simple :: outer) = new := by
      rw [newName, inside, mapped]
      dsimp only
      rw [part, Option.getD_some]
    refine ⟨?_, ?_⟩
    · rw [mappedName, inside, Option.getD_some, Option.getD_some]
    · rw [newNames, nestedName, own, nested, inside, Option.getD_some]
  · have outside : lookupName f (nestedName name (simple :: outer)) = none := outside
    rw [unlisted, Option.getD_none] at mapped nested
    have own : newName f name (simple :: outer) = simple := by rw [newName, outside]
    refine ⟨?_, ?_⟩
    · rw [mappedName, outside, Option.getD_none, Option.getD_none, mapped, nestedName]
    · rw [newNames, nestedName, own, nested, outside, Option.getD_none, nestedName]

theorem Whole.simpleNames {name : List Char} : (more : TypeSuffix) → (outer : List (List Char)) →
    (∀ p ∈ more.nested name outer, Extends f p) → Whole f name outer →
    Whole f name (more.simpleNames outer)
  | .done, _, _, whole => whole
  | .arguments _ more, outer, fits, whole => simpleNames more outer fits whole
  | .inner simple more, outer, fits, whole => by
    obtain ⟨first, others⟩ := List.forall_mem_cons.mp fits
    exact simpleNames more (simple :: outer) others (whole.cons first)

namespace Signature

theorem nestedName_plain {name : List Char} {outer : List (List Char)} (plain : ';' ∉ name)
    (others : ∀ simple ∈ outer, ';' ∉ simple) : ';' ∉ nestedName name outer := by
  induction outer with
  | nil => exact plain
  | cons simple outer ih =>
    obtain ⟨first, others⟩ := List.forall_mem_cons.mp others
    rw [nestedName, List.mem_append, List.mem_cons]
    exact not_or.mpr ⟨ih others, not_or.mpr ⟨by decide, first⟩⟩

theorem semicolon_not_mem {name : List Char} (plain : name.Disjoint nameEnds) : ';' ∉ name :=
  fun inside => plain inside (by decide)

theorem SuffixAt.simpleNames_plain {s rest : List Char} {more : TypeSuffix} :
    SuffixAt s more rest → ∀ outer : List (List Char), (∀ simple ∈ outer, ';' ∉ simple) →
      ∀ simple ∈ more.simpleNames outer, ';' ∉ simple
  | .done, _, others => others
  | .arguments _ suffix, outer, others => suffix.simpleNames_plain outer others
  | .inner plain suffix, _, others =>
    suffix.simpleNames_plain _ (List.forall_mem_cons.mpr ⟨semicolon_not_mem plain, others⟩)

/-! ### Renaming before and after erasure -/

/-- Where there is an erasure, the new tree has one too, and renaming makes it of the old one. -/
def Commutes (f : String → Option String) (old new : Option (List Char)) : Prop :=
  ∀ d, old = some d → ∃ d', new = some d' ∧ Descriptor.Turns f d d'

theorem commutes_char {c : Char} (other : c ≠ 'L') : Commutes f (some [c]) (some [c]) := by
  rintro _ ⟨⟩
  exact ⟨[c], rfl, Descriptor.turns_char other⟩

theorem Commutes.append {old new old' new' : Option (List Char)} (first : Commutes f old new)
    (second : Commutes f old' new') : Commutes f (appended old old') (appended new new') := by
  intro d erased
  obtain ⟨a, found, other⟩ := Option.bind_eq_some_iff.mp erased
  obtain ⟨b, found', rfl⟩ := Option.map_eq_some_iff.mp other
  obtain ⟨a', named, turns⟩ := first a found
  obtain ⟨b', named', turns'⟩ := second b found'
  refine ⟨a' ++ b', ?_, turns.append turns'⟩
  rw [named, named', appended, Option.bind_some, Option.map_some]

theorem TypeAt.erasure_withNames {s rest : List Char} {t : TypeSignature} :
    TypeAt s t rest → (∀ p ∈ t.nested, Extends f p) →
      Commutes f t.erasure? (t.withNames (newName f)).erasure?
  | .base letter, _ => commutes_char fun same => absurd (same ▸ letter) (by decide)
  | .parameter _, _ => fun _ erased => nomatch erased
  | .array element, fits => (commutes_char (by decide)).append (element.erasure_withNames fits)
  | @TypeAt.named name _ _ more plain suffix, fits => by
    rintro _ ⟨⟩
    have whole := (Whole.simpleNames more [] fits (whole_nil name)).nested
    have names : (more.withNames (newName f) name []).simpleNames [] =
        newNames f name (more.simpleNames []) := simpleNames_withNames name more []
    have inside : ';' ∉ nestedName name (more.simpleNames []) := nestedName_plain
      (semicolon_not_mem plain) (suffix.simpleNames_plain [] (List.forall_mem_nil _))
    refine ⟨_, rfl, ?_⟩
    rw [names, whole, ← substitute_eq_lookupName]
    exact Descriptor.turns_class inside

theorem TypesAt.erasure_withNames {s rest : List Char} {ts : List TypeSignature}
    (types : TypesAt [] s ts rest) (fits : ∀ p ∈ ts.flatMap TypeSignature.nested, Extends f p) :
    Commutes f (eraseAll? ts) (eraseAll? (ts.map (TypeSignature.withNames (newName f)))) := by
  induction types with
  | nil =>
    rintro _ ⟨⟩
    exact ⟨[], rfl, Descriptor.turns_nil⟩
  | cons type _ ih =>
    rw [List.flatMap_cons, List.forall_mem_append] at fits
    exact (type.erasure_withNames fits.1).append (ih fits.2)

theorem BodyAt.erasure_withNames {s rest : List Char} {body : SignatureBody}
    (reads : BodyAt s body rest) (fits : ∀ p ∈ body.nested, Extends f p) :
    Commutes f body.erasure? (body.withNames (newName f)).erasure? := by
  cases reads with
  | types all => exact all.erasure_withNames fits
  | @method _ _ _ _ ps throws result parameters type _ =>
    obtain ⟨inside, behind⟩ := List.forall_mem_append.mp fits
    cases throws with
    | nil =>
      exact (commutes_char (by decide)).append ((parameters.erasure_withNames inside).append
        ((commutes_char (by decide)).append (type.erasure_withNames behind)))
    | cons _ _ => exact fun _ erased => nomatch erased

theorem Derives.erasure_withNames {s : List Char} {tree : Signature} (derives : Derives s tree)
    (fits : ∀ p ∈ tree.body.nested, Extends f p) :
    Commutes f tree.erasure? (tree.withNames (newName f)).erasure? := by
  obtain ⟨parameters, reads⟩ := derives
  cases parameters with
  | absent _ => exact reads.erasure_withNames fits
  | @present _ _ ps _ =>
    cases ps with
    | nil => exact reads.erasure_withNames fits
    | cons _ _ => exact fun _ erased => nomatch erased

theorem erasure_rename (f : String → Option String) {text d : String} {tree : Signature}
    (unending : Unending f) (parsed : parse text = .ok tree)
    (fits : ∀ p ∈ tree.body.nested, Extends f p) (erased : erasureOf? text = some d) :
    ∃ new, rename f text = .ok new ∧ erasureOf? new = some (Descriptor.rename f d) := by
  have derives := derives_of_parse parsed
  rw [erasureOf?, parsed] at erased
  obtain ⟨old, found, rfl⟩ := Option.map_eq_some_iff.mp erased
  obtain ⟨new, named, turns⟩ := derives.erasure_withNames fits old found
  refine ⟨_, rename_of_derives derives, ?_⟩
  rw [erasureOf?, parse_withNames (keeps_newName unending) parsed]
  dsimp only
  rw [named, Option.map_some, turns.rename_eq]

theorem erasure_rename_nested :
    ∃ new, rename outerInner "(LO<TT;>.I;[I)V" = .ok new ∧ erasureOf? new = some "(LP$J;[I)V" := by
  have fits : Extends outerInner (['O'], ['I']) := .inl ⟨['P'], ['J'], by decide, by decide⟩
  exact erasure_rename outerInner (d := "(LO$I;[I)V") unending_outerInner rfl
    (List.forall_mem_singleton.mpr fits) rfl

end Signature

end ModRemap
