import Mathlib
import ModRemap.Proofs.MemberTargets

/-! Members without an owner. Their name decides alone: of the classes that list a member of this name the
first one counts, and in it the first such member, whatever its descriptor. -/

namespace ModRemap

/-- The first member of this name. -/
def ClassEntry.first? (c : ClassEntry) (kind : MemberKind) (name : String) : Option MemberEntry :=
  (c.members kind).find? fun m => m.sourceName = name

theorem ClassEntry.exists_find? {c : ClassEntry} {kind : MemberKind} {m : MemberEntry}
    (listed : m ∈ c.members kind) :
    ∃ m' ∈ c.members kind, m'.sourceName = m.sourceName ∧
      m'.sourceDescriptor = m.sourceDescriptor ∧
      c.find? kind m.sourceName m.sourceDescriptor = some m' := by
  have there : (c.find? kind m.sourceName m.sourceDescriptor).isSome := by
    rw [ClassEntry.find?, List.find?_isSome]
    exact ⟨m, List.mem_reverse.mpr listed, by simp⟩
  obtain ⟨m', found⟩ := Option.isSome_iff_exists.mp there
  have asked := List.find?_some found
  have member := List.mem_reverse.mp (List.mem_of_find?_eq_some found)
  simp only [Bool.and_eq_true, decide_eq_true_eq] at asked
  exact ⟨m', member, asked.1, asked.2, found⟩

namespace MappingIndex

/-- The first class that lists a member of this name, and the first such member in it. -/
structure Leads (ix : MappingIndex) (kind : MemberKind) (name : String) (p : String × ClassEntry)
    (m : MemberEntry) : Prop where
  owner : ix.classes.entries.find? (fun p => (p.2.first? kind name).isSome) = some p
  member : p.2.first? kind name = some m

/-- A member of a class, as references write it in the target namespace. -/
def targetReference (kind : MemberKind) (c : ClassEntry) (m : MemberEntry) : String :=
  "L" ++ c.target ++ ";" ++ kind.write m.targetName m.targetDescriptor

theorem written_eq (kind : MemberKind) (m : MemberEntry) :
    written kind m = kind.write m.sourceName m.sourceDescriptor := by
  cases kind <;> rfl

variable {ix : MappingIndex} {kind : MemberKind} {name : String} {p : String × ClassEntry}
  {m : MemberEntry}

namespace Leads

theorem get? (leads : ix.Leads kind name p m) : ix.classes.get? p.1 = some p.2 :=
  (Dict.get?_eq_some_iff _ _ _).mpr (List.mem_of_find?_eq_some leads.owner)

theorem listed (leads : ix.Leads kind name p m) : m ∈ p.2.members kind :=
  List.mem_of_find?_eq_some leads.member

theorem name_eq (leads : ix.Leads kind name p m) : m.sourceName = name := by
  have found := leads.member
  simpa using List.find?_some found

theorem findByName (leads : ix.Leads kind name p m) :
    ix.findByName kind name = some ⟨p.1, kind.write m.sourceName m.sourceDescriptor⟩ := by
  obtain ⟨-, before, after, split, others⟩ := List.find?_eq_some_iff_append.mp leads.owner
  have passed : before.findSome? (fun q => (q.2.first? kind name).map fun m =>
      (⟨q.1, written kind m⟩ : OwnedMember)) = none := by
    rw [List.findSome?_eq_none_iff]
    intro q inside
    simpa using others q inside
  rw [MappingIndex.findByName, declaring, List.head?_filterMap]
  change ix.classes.entries.findSome? (fun q => (q.2.first? kind name).map fun m =>
    (⟨q.1, written kind m⟩ : OwnedMember)) = _
  rw [split, List.findSome?_append, passed, Option.none_or]
  simp [leads.member, written_eq]

end Leads

theorem exists_leads {found : OwnedMember} (h : ix.findByName kind name = some found) :
    ∃ p m, ix.Leads kind name p m ∧
      found = ⟨p.1, kind.write m.sourceName m.sourceDescriptor⟩ := by
  have there : ¬∀ p ∈ ix.classes.entries, ∀ m ∈ p.2.members kind, m.sourceName ≠ name := by
    rw [← findByName_eq_none_iff, h]
    simp
  push Not at there
  obtain ⟨q, listed, k, inside, named⟩ := there
  have first : (q.2.first? kind name).isSome := by
    rw [ClassEntry.first?, List.find?_isSome]
    exact ⟨k, inside, by simpa using named⟩
  have some : (ix.classes.entries.find? fun p => (p.2.first? kind name).isSome).isSome :=
    List.find?_isSome.mpr ⟨q, listed, first⟩
  obtain ⟨p, owner⟩ := Option.isSome_iff_exists.mp some
  have lists := List.find?_some owner
  obtain ⟨m, member⟩ := Option.isSome_iff_exists.mp lists
  have leads : ix.Leads kind name p m := ⟨owner, member⟩
  exact ⟨p, m, leads, Option.some.inj (h.symm.trans leads.findByName)⟩

theorem mapOwned_write {owner descriptor : String} {c : ClassEntry} {e : MemberEntry}
    (entry : ix.classes.get? owner = some c) (legible : kind.Legible name descriptor)
    (found : c.find? kind name descriptor = some e) :
    ix.mapOwned owner (kind.write name descriptor) = targetReference kind c e := by
  have target : ix.mapClass owner = some c.target := by simp [mapClass, entry]
  have owners : ix.classTarget ("L" ++ owner ++ ";") = "L" ++ c.target ++ ";" := by
    simp [classTarget, bareClass_descriptor, target]
  simp only [mapOwned, owners, memberTarget_write entry legible found, targetReference]

/-- What the search returns is found again under its own name and descriptor. Where a class repeats a
member it may be another row, but of the same name and descriptor. -/
theorem mapReference_of_leads {reference : String}
    (bare : looksLikeMember (leading reference) = true)
    (sort : bareKind (leading reference) = kind) (asked : bareName (leading reference) = name)
    (leads : ix.Leads kind name p m) (legible : kind.Legible m.sourceName m.sourceDescriptor) :
    ∃ m' ∈ p.2.members kind, m'.sourceName = name ∧ m'.sourceDescriptor = m.sourceDescriptor ∧
      ix.mapReference reference = targetReference kind p.2 m' := by
  obtain ⟨m', listed, sameName, sameDescriptor, found⟩ := ClassEntry.exists_find? leads.listed
  refine ⟨m', listed, sameName.trans leads.name_eq, sameDescriptor, ?_⟩
  rw [mapReference_of_member bare, sort, asked, leads.findByName, Option.map_some, Option.getD_some]
  exact mapOwned_write leads.get? legible found

/-! ### Overloaded methods -/

/-- Some class lists a method of this name and descriptor. -/
def Declares (ix : MappingIndex) (name descriptor : String) : Prop :=
  ∃ p ∈ ix.classes.entries, ∃ m ∈ p.2.methods, m.sourceName = name ∧ m.sourceDescriptor = descriptor

/-- The reference comes out as a method of the class that has this name and descriptor. -/
def ComesOutAs (ix : MappingIndex) (reference : String) (c : ClassEntry)
    (name descriptor : String) : Prop :=
  ∃ m ∈ c.methods, m.sourceName = name ∧ m.sourceDescriptor = descriptor ∧
    ix.mapReference reference = targetReference .method c m

instance (name descriptor : String) : Decidable (ix.Declares name descriptor) :=
  inferInstanceAs (Decidable (∃ p ∈ ix.classes.entries, ∃ m ∈ p.2.methods,
    m.sourceName = name ∧ m.sourceDescriptor = descriptor))

instance (reference : String) (c : ClassEntry) (name descriptor : String) :
    Decidable (ix.ComesOutAs reference c name descriptor) :=
  inferInstanceAs (Decidable (∃ m ∈ c.methods, m.sourceName = name ∧
    m.sourceDescriptor = descriptor ∧ ix.mapReference reference = targetReference .method c m))

theorem leading_method {descriptor : String}
    (plain : ∀ c ∈ name.toList, c ≠ '(' ∧ c ≠ ':' ∧ c ≠ ';')
    (opens : descriptor.toList.head? = some '(') :
    looksLikeMember (leading (name ++ descriptor)) = true ∧
      bareKind (leading (name ++ descriptor)) = .method ∧
      bareName (leading (name ++ descriptor)) = name := by
  obtain ⟨d, text⟩ := List.head?_eq_some_iff.mp opens
  have closed : ∀ c ∈ name.toList, decide (c ≠ ';') = true := by
    intro c inside
    simpa using (plain c inside).2.2
  have first : (leading (name ++ descriptor)).toList =
      name.toList ++ '(' :: d.takeWhile (· ≠ ';') := by
    rw [leading, String.toList_ofList, String.toList_append, text,
      List.takeWhile_append_of_pos closed, List.takeWhile_cons_of_pos (by decide)]
  have named : ∀ c ∈ name.toList, (decide (c ≠ '(') && decide (c ≠ ':')) = true := by
    intro c inside
    simpa using ⟨(plain c inside).1, (plain c inside).2.1⟩
  refine ⟨?_, ?_, ?_⟩
  · simp [looksLikeMember, first]
  · simp [bareKind, first]
  · rw [bareName, first, List.takeWhile_append_of_pos named, List.takeWhile_cons_of_neg (by decide),
      List.append_nil, String.ofList_toList]

/-- Of several methods of one name, in one class or in several, the first comes out. -/
theorem mapReference_bare_method (ix : MappingIndex) {name descriptor : String}
    (plain : ∀ c ∈ name.toList, c ≠ '(' ∧ c ≠ ':' ∧ c ≠ ';')
    (opens : descriptor.toList.head? = some '(')
    (declared : ix.Declares name descriptor) :
    ∃ p m, ix.Leads .method name p m ∧ (m.sourceDescriptor.toList.head? = some '(' →
      ix.ComesOutAs (name ++ descriptor) p.2 name m.sourceDescriptor) := by
  obtain ⟨bare, sort, asked⟩ := leading_method plain opens
  have searched : ix.findByName .method name ≠ none := by
    rw [ne_eq, findByName_eq_none_iff]
    intro absent
    obtain ⟨p, listed, m, inside, same, -⟩ := declared
    exact absent p listed m inside same
  obtain ⟨owned, found⟩ := Option.ne_none_iff_exists'.mp searched
  obtain ⟨p, m, leads, -⟩ := exists_leads found
  refine ⟨p, m, leads, fun opens' => ?_⟩
  have free : '(' ∉ m.sourceName.toList := by
    rw [leads.name_eq]
    exact fun inside => (plain '(' inside).1 rfl
  exact mapReference_of_leads bare sort asked leads ⟨free, opens'⟩

/-- The class that is asked for comes second, and the first one has two overloads. -/
theorem mapReference_bare_method_second :
    let ix : MappingIndex := ⟨"a", "b", Dict.ofList [
      ("A", ⟨"X", [], [⟨"k", "(I)V", "r", "(I)V"⟩, ⟨"m", "(LB;)V", "s", "(LY;)V"⟩,
        ⟨"m", "(J)V", "t", "(J)V"⟩]⟩),
      ("B", ⟨"Y", [], [⟨"m", "(I)V", "u", "(I)V"⟩]⟩)], Dict.ofList [("X", "A"), ("Y", "B")]⟩
    (∀ c ∈ "m".toList, c ≠ '(' ∧ c ≠ ':' ∧ c ≠ ';') ∧ "(I)V".toList.head? = some '(' ∧
      ix.Declares "m" "(I)V" ∧ ix.mapReference ("m" ++ "(I)V") = "LX;s(LY;)V" := by
  intro ix
  have plain : ∀ c ∈ "m".toList, c ≠ '(' ∧ c ≠ ':' ∧ c ≠ ';' := by simp
  have opens : "(I)V".toList.head? = some '(' := by decide +kernel
  have declared : ix.Declares "m" "(I)V" := by decide +kernel
  obtain ⟨p, m, leads, out⟩ := mapReference_bare_method ix plain opens declared
  have first : ix.classes.entries.find? (fun p => (p.2.first? .method "m").isSome) =
      some ("A", ⟨"X", [], [⟨"k", "(I)V", "r", "(I)V"⟩, ⟨"m", "(LB;)V", "s", "(LY;)V"⟩,
        ⟨"m", "(J)V", "t", "(J)V"⟩]⟩) := by decide +kernel
  obtain rfl := Option.some.inj (first.symm.trans leads.owner)
  obtain rfl : ⟨"m", "(LB;)V", "s", "(LY;)V"⟩ = m := Option.some.inj leads.member
  obtain ⟨m', listed, -, same, shown⟩ := out (by decide +kernel)
  have only : m' = ⟨"m", "(LB;)V", "s", "(LY;)V"⟩ := by
    simp only [List.mem_cons, List.not_mem_nil, or_false] at listed
    rcases listed with rfl | rfl | rfl
    · simp at same
    · rfl
    · simp at same
  refine ⟨plain, opens, declared, ?_⟩
  rw [shown, only]
  decide +kernel

/-- An overload comes before the method, or a row of its name that is no method, or the name has a
colon. -/
theorem not_comesOutAs_bare_method :
    let overloaded : MappingIndex := ⟨"a", "b", Dict.ofList [("C", ⟨"X", [],
      [⟨"m", "()V", "s", "()V"⟩, ⟨"m", "(I)V", "t", "(I)V"⟩]⟩)], Dict.ofList [("X", "C")]⟩
    let malformed : MappingIndex := ⟨"a", "b", Dict.ofList [("C", ⟨"X", [],
      [⟨"m", "V", "s", "V"⟩, ⟨"m", "(I)V", "t", "(I)V"⟩]⟩)], Dict.ofList [("X", "C")]⟩
    let divided : MappingIndex := ⟨"a", "b", Dict.ofList [("C", ⟨"X", [],
      [⟨"m:n", "(I)V", "t", "(I)V"⟩]⟩)], Dict.ofList [("X", "C")]⟩
    (overloaded.Declares "m" "(I)V" ∧
        ¬∃ p ∈ overloaded.classes.entries, overloaded.ComesOutAs "m(I)V" p.2 "m" "(I)V") ∧
      (malformed.Declares "m" "(I)V" ∧
        ¬∃ p ∈ malformed.classes.entries, malformed.ComesOutAs "m(I)V" p.2 "m" "(I)V") ∧
      divided.Declares "m:n" "(I)V" ∧
        ¬∃ p ∈ divided.classes.entries, divided.ComesOutAs "m:n(I)V" p.2 "m:n" "(I)V" := by
  decide +kernel

end MappingIndex

/-! ### Tables without repeated members -/

instance (kind : MemberKind) (name descriptor : String) : Decidable (kind.Legible name descriptor) :=
  match kind with
  | .field => inferInstanceAs (Decidable (_ ∧ _ ∧ _))
  | .method => inferInstanceAs (Decidable (_ ∧ _))

namespace MappingTable

/-- The first class that lists a member of this name, and the first such member in it. -/
structure Leads (t : MappingTable) (s : ℕ) (kind : MemberKind) (name : String) (c : ClassMapping)
    (m : MemberMapping) : Prop where
  owner : t.classes.find? (fun c => (c.members kind).any fun m => m.name s = name) = some c
  member : (c.members kind).find? (fun m => m.name s = name) = some m

/-- No class and no member of a class is listed twice, and what references write of a member can be
read. -/
structure Searchable (t : MappingTable) (s : ℕ) : Prop where
  distinct : t.Distinct s
  members : ∀ c ∈ t.classes, ∀ kind, ((c.members kind).map fun m =>
    (m.name s, MappingIndex.descriptorIn t s m.descriptor)).Nodup
  legible : ∀ c ∈ t.classes, ∀ kind, ∀ m ∈ c.members kind,
    kind.Legible (m.name s) (MappingIndex.descriptorIn t s m.descriptor)

instance (t : MappingTable) (s : ℕ) : Decidable (t.Searchable s) :=
  decidable_of_iff (_ ∧ _ ∧ _) ⟨fun h => ⟨h.1, h.2.1, h.2.2⟩, fun h => ⟨h.1, h.2, h.3⟩⟩

end MappingTable

namespace MappingIndex

variable {t : MappingTable} {s d : ℕ} {ix : MappingIndex} {kind : MemberKind} {name : String}

theorem first?_classEntry (c : ClassMapping) : (classEntry t s d c).first? kind name =
    ((c.members kind).find? fun m => m.name s = name).map (memberEntry t s d) := by
  rw [ClassEntry.first?, members_classEntry, List.find?_map]
  rfl

theorem Built.entries (built : Built t s d ix) (names : t.Distinct s) :
    ix.classes.entries = t.classes.map fun c => (c.name s, classEntry t s d c) := by
  have keys : ((t.classes.map fun c => (c.name s, classEntry t s d c)).map Prod.fst).Nodup := by
    rw [List.map_map]
    exact names
  rw [built.classes, Dict.entries_ofList keys]

theorem Built.exists_leads (built : Built t s d ix) (names : t.Distinct s) {p : String × ClassEntry}
    {e : MemberEntry} (leads : ix.Leads kind name p e) :
    ∃ c m, t.Leads s kind name c m ∧ p = (c.name s, classEntry t s d c) ∧
      e = memberEntry t s d m := by
  have owner := leads.owner
  rw [built.entries names, List.find?_map, Option.map_eq_some_iff] at owner
  obtain ⟨c, first, rfl⟩ := owner
  have member := leads.member
  rw [first?_classEntry, Option.map_eq_some_iff] at member
  obtain ⟨m, found, rfl⟩ := member
  refine ⟨c, m, ⟨?_, found⟩, rfl, rfl⟩
  rw [← first]
  congr 1
  funext c
  simp [first?_classEntry, List.isSome_find?]

/-- What the search for a member comes to, and the reference to it. -/
structure Resolved (t : MappingTable) (s d : ℕ) (ix : MappingIndex) (kind : MemberKind)
    (name reference : String) : Prop where
  found : ∀ owned, ix.findByName kind name = some owned → ∃ c m, t.Leads s kind name c m ∧
    owned = ⟨c.name s, kind.write (m.name s) (descriptorIn t s m.descriptor)⟩ ∧
    ix.mapReference reference =
      "L" ++ c.name d ++ ";" ++ kind.write (m.name d) (descriptorIn t d m.descriptor)
  missed : ix.findByName kind name = none →
    (∀ c ∈ t.classes, ∀ m ∈ c.members kind, m.name s ≠ name) ∧
      ix.mapReference reference = reference

theorem mapReference_bare {source target : String} (hs : t.namespaceId source = .ok s)
    (hd : t.namespaceId target = .ok d) (h : t.Searchable s) :
    ∃ ix, build t source target = .ok ix ∧ ∀ reference,
      looksLikeMember (leading reference) = true →
        Resolved t s d ix (bareKind (leading reference)) (bareName (leading reference)) reference := by
  obtain ⟨ix, built, of⟩ := exists_build hs hd
  refine ⟨ix, built, fun reference bare => ⟨fun owned found => ?_, fun missed => ?_⟩⟩
  · obtain ⟨p, e, leads, rfl⟩ := exists_leads found
    obtain ⟨c, m, first, rfl, rfl⟩ := of.exists_leads h.distinct leads
    have listed : c ∈ t.classes := List.mem_of_find?_eq_some first.owner
    have row : m ∈ c.members (bareKind (leading reference)) := List.mem_of_find?_eq_some first.member
    have legible := h.legible c listed _ m row
    obtain ⟨e, member, sameName, sameDescriptor, out⟩ :=
      mapReference_of_leads bare rfl rfl leads legible
    -- No other row of the class has this name and descriptor.
    have only : e = memberEntry t s d m := by
      rw [members_classEntry] at member
      obtain ⟨m', row', rfl⟩ := List.mem_map.mp member
      have named : m'.name s = m.name s := sameName.trans leads.name_eq.symm
      have same : (m'.name s, descriptorIn t s m'.descriptor) =
          (m.name s, descriptorIn t s m.descriptor) := Prod.ext named sameDescriptor
      rw [List.inj_on_of_nodup_map (h.members c listed _) row' row same]
    rw [only] at out
    exact ⟨c, m, first, rfl, out⟩
  · refine ⟨fun c listed m row named => ?_, ?_⟩
    · have absent := findByName_eq_none_iff.mp missed (c.name s, classEntry t s d c)
      rw [of.entries h.distinct, members_classEntry] at absent
      exact absent (List.mem_map_of_mem listed) (memberEntry t s d m) (List.mem_map_of_mem row) named
    · simp [mapReference_of_member bare, missed]

/-- The source is not the first namespace, and the method that comes first is an overload of the one that
is asked for. There is no field of its name. -/
theorem mapReference_bare_overload :
    let first : MemberMapping := ⟨"(LA;)V", ["m", "n", "o"]⟩
    let y : ClassMapping := ⟨["B", "y", "Y"], [], [first, ⟨"(I)V", ["p", "n", "q"]⟩]⟩
    let t : MappingTable := ⟨["a", "b", "c"],
      [⟨["A", "x", "X"], [⟨"LB;", ["f", "g", "h"]⟩], [⟨"()V", ["k", "l", "r"]⟩]⟩, y]⟩
    t.namespaceId "b" = .ok 1 ∧ t.namespaceId "c" = .ok 2 ∧ t.Searchable 1 ∧
      ∃ ix, build t "b" "c" = .ok ix ∧ looksLikeMember (leading "n(I)V") = true ∧
        ix.mapReference "n(I)V" = "LY;o(LX;)V" ∧ looksLikeMember (leading "n:I") = true ∧
        ix.mapReference "n:I" = "n:I" := by
  intro first y t
  have hs : t.namespaceId "b" = .ok 1 := by decide +kernel
  have hd : t.namespaceId "c" = .ok 2 := by decide +kernel
  have h : t.Searchable 1 := by decide +kernel
  have method : looksLikeMember (leading "n(I)V") = true := by decide +kernel
  have field : looksLikeMember (leading "n:I") = true := by decide +kernel
  obtain ⟨ix, built, resolved⟩ := mapReference_bare hs hd h
  have index : build t "b" "c" = .ok ⟨"b", "c", Dict.ofList [
      ("x", ⟨"X", [⟨"g", "Ly;", "h", "LY;"⟩], [⟨"l", "()V", "r", "()V"⟩]⟩),
      ("y", ⟨"Y", [], [⟨"n", "(Lx;)V", "o", "(LX;)V"⟩, ⟨"n", "(I)V", "q", "(I)V"⟩]⟩)],
      Dict.ofList [("X", "x"), ("Y", "y")]⟩ := by decide +kernel
  refine ⟨hs, hd, h, ix, built, method, ?_, field, ?_⟩
  · have found : ix.findByName (bareKind (leading "n(I)V")) (bareName (leading "n(I)V")) =
        some ⟨"y", "n(Lx;)V"⟩ := by
      rw [Except.ok.inj (built.symm.trans index)]
      decide +kernel
    obtain ⟨c, m, leads, -, out⟩ := (resolved "n(I)V" method).found _ found
    have owner : t.classes.find? (fun c => (c.members (bareKind (leading "n(I)V"))).any fun m =>
        m.name 1 = bareName (leading "n(I)V")) = some y := by decide +kernel
    have member : (y.members (bareKind (leading "n(I)V"))).find? (fun m =>
        m.name 1 = bareName (leading "n(I)V")) = some first := by decide +kernel
    obtain rfl := Option.some.inj (owner.symm.trans leads.owner)
    obtain rfl := Option.some.inj (member.symm.trans leads.member)
    rw [out]
    decide +kernel
  · have missed : ix.findByName (bareKind (leading "n:I")) (bareName (leading "n:I")) = none := by
      rw [Except.ok.inj (built.symm.trans index)]
      decide +kernel
    exact ((resolved "n:I" field).missed missed).2

end MappingIndex

end ModRemap
