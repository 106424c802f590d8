import Mathlib
import ModRemap.Proofs.IndexRows

/-! The index for two namespaces and the one for the same two in the other order undo each other. -/

namespace ModRemap

instance MemberKind.decidableForall (p : MemberKind → Prop) [∀ kind, Decidable (p kind)] :
    Decidable (∀ kind, p kind) :=
  decidable_of_iff (p .field ∧ p .method) ⟨fun h kind => by cases kind; exacts [h.1, h.2],
    fun h => ⟨h .field, h .method⟩⟩

namespace MappingTable

/-- The names of a table tell its classes and members apart, those in descriptors included. -/
structure Invertible (t : MappingTable) (s d : ℕ) : Prop where
  distinct : ∀ ns < t.namespaces.length, t.Distinct ns
  closed : ∀ ns < t.namespaces.length, ∀ c ∈ t.classes, ';' ∉ (c.name ns).toList
  apart : ∀ c ∈ t.classes, ∀ kind, ∀ m ∈ c.members kind, ∀ name ∈ Descriptor.names m.descriptor,
    (∃ c' ∈ t.classes, c'.name 0 = name) ∨ ∀ c' ∈ t.classes, c'.name s ≠ name ∧ c'.name d ≠ name
  members : ∀ c ∈ t.classes, ∀ kind, ∀ ns ∈ [s, d],
    ((c.members kind).map (MappingIndex.memberKey t ns)).Nodup

variable {t : MappingTable} {s d : ℕ}

instance : Decidable (t.Invertible s d) :=
  decidable_of_iff (_ ∧ _ ∧ _ ∧ _)
    ⟨fun h => ⟨h.1, h.2.1, h.2.2.1, h.2.2.2⟩, fun h => ⟨h.1, h.2, h.3, h.4⟩⟩

theorem Invertible.symm (h : t.Invertible s d) : t.Invertible d s where
  distinct := h.distinct
  closed := h.closed
  apart c hc kind m hm name mentioned := (h.apart c hc kind m hm name mentioned).imp id
    fun unlisted c' hc' => (unlisted c' hc').symm
  members c hc kind ns role := h.members c hc kind ns ((List.Perm.swap s d []).mem_iff.mp role)

theorem lt_of_namespaceId {name : String} {ns : ℕ} (h : t.namespaceId name = .ok ns) :
    ns < t.namespaces.length := by
  unfold namespaceId at h
  split at h
  · rename_i i found
    obtain rfl := Except.ok.inj h
    exact (List.findIdx?_eq_some_iff_getElem.mp found).1
  · exact nomatch h

end MappingTable

namespace MappingIndex

variable {t : MappingTable} {s d : ℕ}

/-- `F` leads from the namespace `s` to `d`, and `B` leads back. -/
structure Inverts (t : MappingTable) (s d : ℕ) (F B : MappingIndex) : Prop where
  mapClass : ∀ x y, F.mapClass x = some y ↔ B.mapClass y = some x
  unmapClass : F.unmapClass = B.mapClass
  mapDescriptor : ∀ descriptor, (∀ name ∈ Descriptor.names descriptor,
    (∃ c ∈ t.classes, c.name s = name) ∨ ∀ c ∈ t.classes, c.name d ≠ name) →
      B.mapDescriptor (F.mapDescriptor descriptor) = descriptor
  mapMember : ∀ kind owner name descriptor new, F.mapMember kind owner name descriptor = some new →
    ∃ owner', F.mapClass owner = some owner' ∧
      B.mapMember kind owner' new (F.mapDescriptor descriptor) = some name
  rows : ∀ kind owner name descriptor new,
    F.mapMember kind owner name descriptor = some new ↔ ∃ c ∈ t.classes, c.name s = owner ∧
      ∃ m ∈ c.members kind, memberKey t s m = (name, descriptor) ∧ m.name d = new

section

variable {F B : MappingIndex} (forward : Built t s d F) (back : Built t d s B)
  (source : t.Distinct s) (target : t.Distinct d)

include forward back source target

theorem mapClass_eq_some_iff_back {x y : String} :
    F.mapClass x = some y ↔ B.mapClass y = some x := by
  rw [forward.mapClass_eq_some_iff source, back.mapClass_eq_some_iff target]
  simp only [and_comm]

/-- A name that is not listed comes back unless some other class has it in the target. -/
theorem mapDescriptor_back (closed : ∀ c ∈ t.classes, ';' ∉ (c.name d).toList) {descriptor : String}
    (listed : ∀ name ∈ Descriptor.names descriptor,
      (∃ c ∈ t.classes, c.name s = name) ∨ ∀ c ∈ t.classes, c.name d ≠ name) :
    B.mapDescriptor (F.mapDescriptor descriptor) = descriptor := by
  have ends : Descriptor.Closed F.mapClass := by
    intro x y found
    obtain ⟨c, member, _, rfl⟩ := (forward.mapClass_eq_some_iff source).mp found
    exact closed c member
  unfold mapDescriptor
  rw [Descriptor.rename_rename ends]
  refine Descriptor.rename_eq_self fun name mentioned => ?_
  show Descriptor.renamed B.mapClass (Descriptor.renamed F.mapClass name) = name
  by_cases known : ∃ c ∈ t.classes, c.name s = name
  · obtain ⟨c, member, rfl⟩ := known
    rw [forward.renamed_of_mem source member, back.renamed_of_mem target member]
  · have absent : ∀ c ∈ t.classes, c.name s ≠ name := fun c hc same => known ⟨c, hc, same⟩
    rw [forward.renamed_of_unlisted absent]
    exact back.renamed_of_unlisted ((listed name mentioned).resolve_left known)

end

theorem inverts_of_built {F B : MappingIndex} (forward : Built t s d F) (back : Built t d s B)
    (h : t.Invertible s d) (hs : s < t.namespaces.length) (hd : d < t.namespaces.length) :
    Inverts t s d F B := by
  have first : t.Distinct 0 := h.distinct 0 (Nat.zero_lt_of_lt hs)
  have source : t.Distinct s := h.distinct s hs
  have target : t.Distinct d := h.distinct d hd
  have rows (kind : MemberKind) (owner name descriptor new : String) :
      F.mapMember kind owner name descriptor = some new ↔ ∃ c ∈ t.classes, c.name s = owner ∧
        ∃ m ∈ c.members kind, memberKey t s m = (name, descriptor) ∧ m.name d = new :=
    forward.mapMember_eq_some_iff first source fun c hc =>
      h.members c hc kind s List.mem_cons_self
  refine ⟨fun _ _ => mapClass_eq_some_iff_back forward back source target, ?_,
    fun _ => mapDescriptor_back forward back source target (h.closed d hd),
    fun kind owner name descriptor new found => ?_, rows⟩
  · funext y
    ext x
    rw [forward.unmapClass_eq_some_iff target, back.mapClass_eq_some_iff target]
  · -- The row that was found forward is the one to be found back, under what `d` calls it.
    obtain ⟨c, member, rfl, m, row, key, rfl⟩ := (rows kind owner name descriptor new).mp found
    obtain ⟨rfl, rfl⟩ := Prod.mk.inj key
    have there : F.mapDescriptor (t.translated s m.descriptor) = t.translated d m.descriptor :=
      forward.mapDescriptor_translated first source (h.closed s hs) fun name mentioned =>
        (h.apart c member kind m row name mentioned).imp id fun unlisted c' hc' =>
          (unlisted c' hc').1
    have distinct (c : ClassMapping) (hc : c ∈ t.classes) :
        ((c.members kind).map (memberKey t d)).Nodup :=
      h.members c hc kind d (List.mem_cons_of_mem _ List.mem_cons_self)
    refine ⟨c.name d, (forward.mapClass_eq_some_iff source).mpr ⟨c, member, rfl, rfl⟩, ?_⟩
    rw [there]
    exact (back.mapMember_eq_some_iff first target distinct).mpr
      ⟨c, member, rfl, m, row, rfl, rfl⟩

/-- Descriptors are kept in the terms of the first namespace, whichever two the indexes are for. -/
theorem exists_inverse {t : MappingTable} {source target : String} {s d : ℕ}
    (hs : t.namespaceId source = .ok s) (hd : t.namespaceId target = .ok d)
    (h : t.Invertible s d) :
    ∃ F B, build t source target = .ok F ∧ build t target source = .ok B ∧
      Inverts t s d F B ∧ Inverts t d s B F := by
  obtain ⟨F, forth, forward⟩ := exists_build hs hd
  obtain ⟨B, back, backward⟩ := exists_build hd hs
  have source := MappingTable.lt_of_namespaceId hs
  have target := MappingTable.lt_of_namespaceId hd
  exact ⟨F, B, forth, back, inverts_of_built forward backward h source target,
    inverts_of_built backward forward h.symm target source⟩

/-- Two classes swap their names between the second namespace and the third. -/
theorem exists_inverse_swapped :
    let t : MappingTable := ⟨["a", "b", "c"],
      [⟨["A", "x", "y"], [⟨"[LB;", ["f", "g", "h"]⟩], [⟨"(LA;I)LB;", ["m", "n", "o"]⟩,
        ⟨"(LString;)V", ["m", "n", "n"]⟩]⟩, ⟨["B", "y", "x"], [], []⟩]⟩
    t.namespaceId "b" = .ok 1 ∧ t.namespaceId "c" = .ok 2 ∧ t.Invertible 1 2 ∧
      ∃ F B, build t "b" "c" = .ok F ∧ build t "c" "b" = .ok B ∧
        F.mapMethod "x" "n" "(Lx;I)Ly;" = some "o" ∧ B.mapMethod "y" "o" "(Ly;I)Lx;" = some "n" ∧
        B.mapDescriptor (F.mapDescriptor "(LString;Lx;)V") = "(LString;Lx;)V" := by
  intro t
  have hs : t.namespaceId "b" = .ok 1 := rfl
  have hd : t.namespaceId "c" = .ok 2 := rfl
  have h : t.Invertible 1 2 := by decide +kernel
  obtain ⟨F, B, forth, back, forward, backward⟩ := exists_inverse hs hd h
  refine ⟨hs, hd, h, F, B, forth, back, ?_, ?_, ?_⟩
  · exact (forward.rows .method "x" "n" "(Lx;I)Ly;" "o").mpr (by decide +kernel)
  · exact (backward.rows .method "y" "o" "(Ly;I)Lx;" "n").mpr (by decide +kernel)
  · exact forward.mapDescriptor "(LString;Lx;)V" (by decide +kernel)

end MappingIndex

end ModRemap
