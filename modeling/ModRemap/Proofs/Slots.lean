import Mathlib
import ModRemap.Entrypoints.Slots
import ModRemap.Proofs.Dict

/-! Slots are filled once. The record shows it: a value is stored right after it has been made, no
construction starts for a slot that has one, and everybody gets the one that was stored. -/

namespace ModRemap.Slots

variable {κ α : Type} [DecidableEq κ] {s s' s'' : Slots κ α} {k : κ} {a : α} {e : SlotEvent α}

/-- What the record says of every event, given what had happened before it. -/
structure Lawful (s : Slots κ α) : Prop where
  values : ∀ k a, s.value? k = some a ↔ (k, .stored a) ∈ s.log
  started : ∀ k before, (k, .started) :: before <:+ s.log → ∀ a, (k, .stored a) ∉ before
  stored : ∀ k a before, (k, .stored a) :: before <:+ s.log →
    before.head? = some (k, .made a) ∧ ∀ b, (k, .stored b) ∉ before
  given : ∀ k a before, (k, .given a) :: before <:+ s.log → (k, .stored a) ∈ before

theorem lawful_empty : ({} : Slots κ α).Lawful where
  values k a := by
    constructor
    · exact fun h => absurd h (by simp [value?, Dict.get?_eq_some_iff, EmptyCollection.emptyCollection,
        Dict.empty])
    · exact fun h => absurd h List.not_mem_nil
  started k before h := absurd (List.suffix_nil.mp h) (List.cons_ne_nil _ _)
  stored k a before h := absurd (List.suffix_nil.mp h) (List.cons_ne_nil _ _)
  given k a before h := absurd (List.suffix_nil.mp h) (List.cons_ne_nil _ _)

namespace Lawful

/-- A value has been stored before it is given. -/
theorem value_of_given (h : s.Lawful) (given : (k, .given a) ∈ s.log) : s.value? k = some a := by
  obtain ⟨after, before, split⟩ := List.append_of_mem given
  have suffix : (k, .given a) :: before <:+ s.log := ⟨after, split.symm⟩
  exact (h.values k a).mpr (suffix.subset (List.mem_cons_of_mem _ (h.given k a before suffix)))

/-- Nothing is stored by an event of another kind, which has to fit the value of the slot. -/
theorem record (h : s.Lawful) (quiet : ∀ a, e ≠ .stored a) (started : e = .started → s.value? k = none)
    (given : ∀ a, e = .given a → s.value? k = some a) : (s.record k e).Lawful where
  values k' a := by
    refine (h.values k' a).trans (List.mem_cons.trans (or_iff_right fun same => ?_)).symm
    exact quiet a (Prod.mk.inj same).2.symm
  started k' before suffix b member := by
    rcases List.suffix_cons_iff.mp suffix with here | earlier
    · obtain ⟨first, rfl⟩ := List.cons.inj here
      obtain ⟨rfl, rfl⟩ := Prod.mk.inj first
      cases (started rfl).symm.trans ((h.values k' b).mpr member)
    · exact h.started k' before earlier b member
  stored k' a before suffix := by
    rcases List.suffix_cons_iff.mp suffix with here | earlier
    · exact absurd (Prod.mk.inj (List.cons.inj here).1).2.symm (quiet a)
    · exact h.stored k' a before earlier
  given k' a before suffix := by
    rcases List.suffix_cons_iff.mp suffix with here | earlier
    · obtain ⟨first, rfl⟩ := List.cons.inj here
      obtain ⟨rfl, rfl⟩ := Prod.mk.inj first
      exact (h.values k' a).mp (given a rfl)
    · exact h.given k' a before earlier

theorem store (h : s.Lawful) (made : s.log.head? = some (k, .made a)) (empty : s.value? k = none) :
    (s.store k a).Lawful where
  values k' b := by
    show (s.values.insert k a).get? k' = some b ↔ (k', .stored b) ∈ (k, .stored a) :: s.log
    rw [Dict.get?_insert, List.mem_cons, Prod.mk.injEq, SlotEvent.stored.injEq, ← h.values]
    split_ifs with same
    · subst same
      rw [empty, Option.some.injEq, eq_comm]
      simp
    · simp [same, value?]
  started k' before suffix b member := by
    rcases List.suffix_cons_iff.mp suffix with here | earlier
    · cases (Prod.mk.inj (List.cons.inj here).1).2
    · exact h.started k' before earlier b member
  stored k' b before suffix := by
    rcases List.suffix_cons_iff.mp suffix with here | earlier
    · obtain ⟨first, rfl⟩ := List.cons.inj here
      obtain ⟨rfl, same⟩ := Prod.mk.inj first
      obtain rfl := SlotEvent.stored.inj same
      refine ⟨made, fun b' member => ?_⟩
      cases empty.symm.trans ((h.values k' b').mpr member)
    · exact h.stored k' b before earlier
  given k' b before suffix := by
    rcases List.suffix_cons_iff.mp suffix with here | earlier
    · cases (Prod.mk.inj (List.cons.inj here).1).2
    · exact h.given k' b before earlier

end Lawful

/-- Nothing is taken back, and what was lawful stays so. -/
structure Grows (s s' : Slots κ α) : Prop where
  log : s.log <:+ s'.log
  values : ∀ k a, s.value? k = some a → s'.value? k = some a
  lawful : s.Lawful → s'.Lawful

namespace Grows

theorem refl (s : Slots κ α) : s.Grows s := ⟨List.suffix_rfl, fun _ _ h => h, id⟩

theorem trans (h : s.Grows s') (h' : s'.Grows s'') : s.Grows s'' :=
  ⟨h.log.trans h'.log, fun k a there => h'.values k a (h.values k a there), h'.lawful ∘ h.lawful⟩

theorem record (quiet : ∀ a, e ≠ .stored a) (started : e = .started → s.value? k = none)
    (given : ∀ a, e = .given a → s.value? k = some a) : s.Grows (s.record k e) :=
  ⟨List.suffix_cons _ _, fun _ _ h => h, fun h => h.record quiet started given⟩

theorem given (found : s.value? k = some a) : s.Grows (s.record k (.given a)) := by
  refine record (fun b same => by cases same) (fun same => by cases same) fun b same => ?_
  exact SlotEvent.given.inj same ▸ found

theorem store (made : s.log.head? = some (k, .made a)) (empty : s.value? k = none) :
    s.Grows (s.store k a) where
  log := List.suffix_cons _ _
  values k' b there := by
    have other : k' ≠ k := by
      rintro rfl
      cases empty.symm.trans there
    show (s.values.insert k a).get? k' = some b
    rw [Dict.get?_insert, if_neg other]
    exact there
  lawful h := h.store made empty

/-- What is made for a slot is stored if the slot is empty, and the value is given either way. -/
theorem keep (s : Slots κ α) (k : κ) (a : α) :
    s.Grows (s.keep k a).1 ∧ (s.keep k a).1.value? k = some (s.keep k a).2 := by
  have made : s.Grows (s.record k (.made a)) :=
    record (fun b same => by cases same) (fun same => by cases same) fun b same => by cases same
  unfold Slots.keep
  dsimp only
  split
  · rename_i first there
    exact ⟨made.trans (given there), there⟩
  · rename_i empty
    have there : ((s.record k (.made a)).store k a).value? k = some a := by
      show (s.values.insert k a).get? k = some a
      rw [Dict.get?_insert, if_pos rfl]
    exact ⟨made.trans ((store rfl empty).trans (given there)), there⟩

end Grows

end ModRemap.Slots
