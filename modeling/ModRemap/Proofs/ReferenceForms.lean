import Mathlib
import ModRemap.Reference

/-! The forms of a reference: a member alone, a class alone, a class and a member of it. A reference that
the index knows nothing of stays, save that a class which a member follows is given its `L`. -/

namespace ModRemap

namespace Text

theorem cut?_eq_none_iff {sep : Char} {s : List Char} : cut? sep s = none ↔ sep ∉ s := by
  rw [← not_iff_not, not_not, ← ne_eq, Option.ne_none_iff_exists']
  constructor
  · rintro ⟨⟨front, back⟩, found⟩
    simp [(cut?_eq_some_iff.mp found).1]
  · intro inside
    obtain ⟨front, back, text, first⟩ := List.eq_append_cons_of_mem inside
    exact ⟨(front, back), cut?_eq_some_iff.mpr ⟨text, first⟩⟩

end Text

namespace MappingIndex

open Text

/-- The text before the first `;`: an owner, or a member without one. -/
def leading (reference : String) : String :=
  String.ofList (reference.toList.takeWhile (· ≠ ';'))

/-- The class that an owner names. -/
def internal (owner : String) : String :=
  String.ofList ((dropStart? ['L'] owner.toList).getD owner.toList)

/-- Either nothing follows what comes first, or `;` and a member do. -/
theorem leading_cases (reference : String) :
    (';' ∉ reference.toList ∧ leading reference = reference) ∨
      ∃ member, ';' ∈ reference.toList ∧ ';' ∉ (leading reference).toList ∧
        reference = leading reference ++ ";" ++ member := by
  have apart : ';' ∉ (leading reference).toList := by
    intro inside
    rw [leading, String.toList_ofList] at inside
    simpa using List.mem_takeWhile_imp inside
  by_cases inside : ';' ∈ reference.toList
  · obtain ⟨front, back, text, first⟩ := List.eq_append_cons_of_mem inside
    have kept : ∀ c ∈ front, decide (c ≠ ';') = true := by
      intro c member
      exact decide_eq_true fun same => first (same ▸ member)
    have start : leading reference = String.ofList front := by
      rw [leading, text, List.takeWhile_append_of_pos kept, List.takeWhile_cons_of_neg (by decide),
        List.append_nil]
    refine .inr ⟨String.ofList back, inside, apart, ?_⟩
    apply String.toList_injective
    simp [start, text]
  · have kept : ∀ c ∈ reference.toList, decide (c ≠ ';') = true := by
      intro c member
      exact decide_eq_true fun same => inside (same ▸ member)
    refine .inl ⟨inside, ?_⟩
    rw [leading, List.takeWhile_eq_self_iff.mpr kept, String.ofList_toList]

theorem prefixed_internal (owner : String) :
    "L" ++ internal owner = if starts "L" owner then owner else "L" ++ owner := by
  cases split : dropStart? ['L'] owner.toList with
  | none => simp [internal, starts, split]
  | some name =>
    have text := dropStart?_eq_some_iff.mp split
    have same : "L" ++ internal owner = owner := by
      apply String.toList_injective
      simp [internal, text, dropStart?]
    simp [starts, split, same]

variable {ix : MappingIndex} {reference : String}

theorem mapReference_of_member (bare : looksLikeMember (leading reference) = true) :
    ix.mapReference reference =
      ((ix.findByName (bareKind (leading reference)) (bareName (leading reference))).map fun found =>
        ix.mapOwned found.owner found.member).getD reference := by
  rcases leading_cases reference with ⟨whole, same⟩ | ⟨member, inside, closed, text⟩
  · rw [same] at bare ⊢
    simp only [mapReference, cut?_eq_none_iff.mpr whole, bare, if_true]
    cases ix.findByName (bareKind reference) (bareName reference) <;> rfl
  · generalize leading reference = owner at *
    have split : cut? ';' reference.toList = some (owner.toList, member.toList) := by
      apply cut?_eq_some_iff.mpr
      simp [text, closed]
    simp only [mapReference, split, String.ofList_toList, bare, if_true]
    cases ix.findByName (bareKind owner) (bareName owner) <;> rfl

theorem mapReference_of_class (whole : ';' ∉ reference.toList)
    (named : looksLikeMember reference = false) :
    ix.mapReference reference = ix.mapClassReference reference := by
  simp [mapReference, cut?_eq_none_iff.mpr whole, named]

theorem mapReference_of_owned {owner member : String} (text : reference = owner ++ ";" ++ member)
    (closed : ';' ∉ owner.toList) (named : looksLikeMember owner = false) :
    ix.mapReference reference = ix.mapOwned (internal owner) member := by
  have split : cut? ';' reference.toList = some (owner.toList, member.toList) := by
    apply cut?_eq_some_iff.mpr
    simp [text, closed]
  simp [mapReference, split, named, internal]

theorem bareClass_descriptor (name : String) : bareClass ("L" ++ name ++ ";") = name := by
  have cut : dropEnd? [';'] ("L" ++ name ++ ";").toList = some ('L' :: name.toList) := by
    rw [dropEnd?_eq_some_iff, String.toList_append, String.toList_append]
    rfl
  unfold bareClass
  rw [cut]
  exact String.ofList_toList

/-! ### Unknown symbols -/

/-- Nothing that the index lists is meant by the text before the first `;`. -/
structure Unlisted (ix : MappingIndex) (first : String) : Prop where
  name : ix.mapClass first = none
  internal : ix.mapClass (internal first) = none
  member : looksLikeMember first = true → ∀ p ∈ ix.classes.entries,
    ∀ m ∈ p.2.members (bareKind first), m.sourceName ≠ bareName first

instance (first : String) : Decidable (ix.Unlisted first) :=
  decidable_of_iff (_ ∧ _ ∧ _) ⟨fun h => ⟨h.1, h.2.1, h.2.2⟩, fun h => ⟨h.1, h.2, h.3⟩⟩

theorem findByName_eq_none_iff {kind : MemberKind} {name : String} :
    ix.findByName kind name = none ↔
      ∀ p ∈ ix.classes.entries, ∀ m ∈ p.2.members kind, m.sourceName ≠ name := by
  simp [findByName, declaring, List.head?_filterMap]

theorem mapClassReference_of_unlisted {name : String} (h : ix.Unlisted name) :
    ix.mapClassReference name = name := by
  have missed : (dropStart? ['L'] name.toList).bind
      (fun rest => ix.mapClass (String.ofList rest)) = none := by
    rw [Option.bind_eq_none_iff]
    intro rest split
    simpa [MappingIndex.internal, split] using h.internal
  simp [mapClassReference, h.name, missed]

theorem mapOwned_of_unlisted {owner : String} (missed : ix.mapClass owner = none) (member : String) :
    ix.mapOwned owner member = "L" ++ owner ++ ";" ++ member := by
  have absent : ix.classes.get? owner = none := by simpa [mapClass] using missed
  have owners : ix.classTarget ("L" ++ owner ++ ";") = "L" ++ owner ++ ";" := by
    simp [classTarget, bareClass_descriptor, missed]
  have members : ix.memberTarget ("L" ++ owner ++ ";") member = member := by
    simp [memberTarget, bareClass_descriptor, absent]
  simp only [mapOwned, owners, members]

/-- The three parts of an owner, `;` and a member are put together again, but the owner in the form of a
descriptor. -/
theorem mapReference_of_unlisted (ix : MappingIndex) {reference : String}
    (h : ix.Unlisted (leading reference)) :
    ix.mapReference reference =
      if looksLikeMember (leading reference) = true ∨ starts "L" (leading reference) = true ∨
        ';' ∉ reference.toList then reference else "L" ++ reference := by
  cases bare : looksLikeMember (leading reference) with
  | true =>
    have missed := findByName_eq_none_iff.mpr (h.member bare)
    simp [mapReference_of_member bare, missed]
  | false =>
    rcases leading_cases reference with ⟨whole, same⟩ | ⟨member, inside, closed, text⟩
    · rw [same] at h bare
      simp [mapReference_of_class whole bare, mapClassReference_of_unlisted h, whole]
    · rw [mapReference_of_owned text closed bare, mapOwned_of_unlisted h.internal, prefixed_internal]
      by_cases marked : starts "L" (leading reference) = true
      · simp only [marked, if_true, ← text, true_or, or_true]
      · have joined : "L" ++ leading reference ++ ";" ++ member = "L" ++ reference := by
          conv_rhs => rw [text]
          simp only [String.append_assoc]
        simp [marked, inside, joined]

/-- An array as the owner. -/
theorem mapReference_of_unlisted_array :
    let ix : MappingIndex := ⟨"a", "b", Dict.ofList [("p/P", ⟨"x/X", [], [⟨"m", "()V", "n", "()V"⟩]⟩)],
      Dict.ofList [("x/X", "p/P")]⟩
    ix.Unlisted (leading "[Lp/P;m()V") ∧ ix.mapReference "[Lp/P;m()V" = "L[Lp/P;m()V" := by
  intro ix
  have h : ix.Unlisted (leading "[Lp/P;m()V") := by decide +kernel
  refine ⟨h, (mapReference_of_unlisted ix h).trans ?_⟩
  decide +kernel

/-- A class by its plain name, with a method. Without the method it stays as it is. -/
theorem mapReference_ne_of_unlisted :
    let ix : MappingIndex := ⟨"a", "b", Dict.ofList [("p/P", ⟨"x/X", [], []⟩)],
      Dict.ofList [("x/X", "p/P")]⟩
    ix.Unlisted (leading "q/Q;m()V") ∧ ix.mapReference "q/Q;m()V" ≠ "q/Q;m()V" ∧
      ix.mapReference "q/Q" = "q/Q" := by
  decide +kernel

end MappingIndex

end ModRemap
