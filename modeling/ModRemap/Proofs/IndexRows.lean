import Mathlib
import ModRemap.Proofs.DescriptorNames

/-! What an index knows: the rows of its table, in the terms of the two namespaces. -/

namespace ModRemap

/-- A list in which no two values have the same key has one answer to a key. -/
theorem find?_key_eq_some_iff {α κ : Type} [DecidableEq κ] {key : α → κ} {as : List α}
    (distinct : (as.map key).Nodup) {k : κ} {a : α} :
    as.find? (fun a => key a = k) = some a ↔ a ∈ as ∧ key a = k := by
  constructor
  · intro found
    have same := List.find?_some found
    exact ⟨List.mem_of_find?_eq_some found, of_decide_eq_true same⟩
  · rintro ⟨member, rfl⟩
    have there : (as.find? fun b => key b = key a).isSome :=
      List.find?_isSome.mpr ⟨a, member, decide_eq_true rfl⟩
    obtain ⟨b, found⟩ := Option.isSome_iff_exists.mp there
    have same := List.find?_some found
    rw [found, List.inj_on_of_nodup_map distinct (List.mem_of_find?_eq_some found) member
      (of_decide_eq_true same)]

namespace MappingTable

/-- The name in a namespace of the class that has this first name. -/
def nameIn (t : MappingTable) (ns : ℕ) (name : String) : Option String :=
  (t.classes.find? fun c => c.name 0 = name).map fun c => c.name ns

/-- A descriptor of the table in the terms of a namespace. -/
def translated (t : MappingTable) (ns : ℕ) (descriptor : String) : String :=
  Descriptor.rename (t.nameIn ns) descriptor

/-- No two classes have the same name in a namespace. -/
def Distinct (t : MappingTable) (ns : ℕ) : Prop :=
  (t.classes.map fun c => c.name ns).Nodup

variable {t : MappingTable} {ns : ℕ}

instance : Decidable (t.Distinct ns) := inferInstanceAs (Decidable (List.Nodup _))

theorem nameIn_eq_some_iff (first : t.Distinct 0) {name new : String} :
    t.nameIn ns name = some new ↔ ∃ c ∈ t.classes, c.name 0 = name ∧ c.name ns = new := by
  rw [nameIn, Option.map_eq_some_iff]
  simp only [find?_key_eq_some_iff first, and_assoc]

end MappingTable

namespace MappingIndex

variable {t : MappingTable} {s d : ℕ} {ix : MappingIndex}

theorem get?_classNames (t : MappingTable) (ns : ℕ) (name : String) :
    (classNames t ns).get? name =
      (t.classes.reverse.find? fun c => c.name 0 = name).map fun c => c.name ns :=
  Dict.get?_ofList_map t.classes (fun c => c.name 0) (fun c => c.name ns) name

/-- The first namespace needs no translation, and takes none. -/
theorem descriptorIn_eq_rename (t : MappingTable) (ns : ℕ) (descriptor : String) :
    descriptorIn t ns descriptor = Descriptor.rename (classNames t ns).get? descriptor := by
  rw [descriptorIn]
  split_ifs with zero
  · refine (Descriptor.rename_eq (fun name new found => ?_) descriptor).symm
    rw [get?_classNames, Option.map_eq_some_iff] at found
    obtain ⟨c, last, rfl⟩ := found
    have here := List.find?_some last
    rw [zero, of_decide_eq_true here]
  · rfl

theorem descriptorIn_eq (first : t.Distinct 0) (ns : ℕ) :
    descriptorIn t ns = t.translated ns := by
  funext descriptor
  have same : (classNames t ns).get? = t.nameIn ns := by
    funext name
    ext new
    rw [MappingTable.nameIn_eq_some_iff first]
    exact Dict.get?_ofList_map_iff first name new
  rw [descriptorIn_eq_rename, same]
  rfl

/-- The index is built of the table for two namespaces. -/
structure Built (t : MappingTable) (s d : ℕ) (ix : MappingIndex) : Prop where
  classes : ix.classes = Dict.ofList (t.classes.map fun c => (c.name s, classEntry t s d c))
  reverse : ix.reverse = Dict.ofList (t.classes.map fun c => (c.name d, c.name s))

theorem exists_build {source target : String} (hs : t.namespaceId source = .ok s)
    (hd : t.namespaceId target = .ok d) :
    ∃ ix, build t source target = .ok ix ∧ Built t s d ix := by
  refine ⟨_, except_bind_eq_ok.mpr ⟨s, hs, except_bind_eq_ok.mpr ⟨d, hd, rfl⟩⟩, ?_⟩
  exact ⟨rfl, rfl⟩

namespace Built

theorem exists_of_mapClass (built : Built t s d ix) {x y : String} (found : ix.mapClass x = some y) :
    ∃ c ∈ t.classes, c.name s = x ∧ c.name d = y := by
  rw [mapClass, built.classes, Option.map_eq_some_iff] at found
  obtain ⟨entry, there, rfl⟩ := found
  obtain ⟨c, member, same⟩ := List.mem_map.mp (Dict.mem_of_get?_ofList there)
  obtain ⟨rfl, rfl⟩ := Prod.mk.inj same
  exact ⟨c, member, rfl, rfl⟩

theorem mapClass_ne_none (built : Built t s d ix) {c : ClassMapping} (member : c ∈ t.classes) :
    ix.mapClass (c.name s) ≠ none := by
  have row := List.mem_map_of_mem (f := fun c => (c.name s, classEntry t s d c)) member
  obtain ⟨entry, found⟩ := Dict.exists_get?_ofList row
  simp [mapClass, built.classes, found]

theorem mapClass_eq_some_iff (built : Built t s d ix) (names : t.Distinct s) {x y : String} :
    ix.mapClass x = some y ↔ ∃ c ∈ t.classes, c.name s = x ∧ c.name d = y := by
  constructor
  · exact built.exists_of_mapClass
  · rintro ⟨c, member, rfl, rfl⟩
    have there := (Dict.get?_ofList_map_iff names _ (classEntry t s d c)).mpr ⟨c, member, rfl, rfl⟩
    rw [mapClass, built.classes, there]
    rfl

theorem unmapClass_eq_some_iff (built : Built t s d ix) (names : t.Distinct d) {x y : String} :
    ix.unmapClass y = some x ↔ ∃ c ∈ t.classes, c.name d = y ∧ c.name s = x := by
  rw [unmapClass, built.reverse]
  exact Dict.get?_ofList_map_iff names y x

theorem renamed_of_mem (built : Built t s d ix) (names : t.Distinct s) {c : ClassMapping}
    (member : c ∈ t.classes) : Descriptor.renamed ix.mapClass (c.name s) = c.name d := by
  have found := (built.mapClass_eq_some_iff names).mpr ⟨c, member, rfl, rfl⟩
  rw [Descriptor.renamed, found, Option.getD_some]

theorem renamed_of_unlisted (built : Built t s d ix) {name : String}
    (unlisted : ∀ c ∈ t.classes, c.name s ≠ name) : Descriptor.renamed ix.mapClass name = name := by
  have missed : ix.mapClass name = none := by
    by_contra found
    obtain ⟨new, found⟩ := Option.ne_none_iff_exists'.mp found
    obtain ⟨c, member, here, -⟩ := built.exists_of_mapClass found
    exact unlisted c member here
  rw [Descriptor.renamed, missed, Option.getD_none]

/-- The two ways from the first namespace to the target agree on a descriptor that mentions no other
class by the name that some class has in the source. -/
theorem mapDescriptor_descriptorIn (built : Built t s d ix) (names : t.Distinct s)
    (closed : ∀ c ∈ t.classes, ';' ∉ (c.name s).toList) {descriptor : String}
    (apart : ∀ name ∈ Descriptor.names descriptor,
      (∃ c ∈ t.classes, c.name 0 = name) ∨ ∀ c ∈ t.classes, c.name s ≠ name) :
    ix.mapDescriptor (descriptorIn t s descriptor) = descriptorIn t d descriptor := by
  have ends : Descriptor.Closed (classNames t s).get? := by
    intro name new found
    rw [get?_classNames, Option.map_eq_some_iff] at found
    obtain ⟨c, last, rfl⟩ := found
    exact closed c (List.mem_reverse.mp (List.mem_of_find?_eq_some last))
  rw [mapDescriptor, descriptorIn_eq_rename, descriptorIn_eq_rename, Descriptor.rename_rename ends]
  refine Descriptor.rename_congr fun name mentioned => ?_
  show Descriptor.renamed ix.mapClass (Descriptor.renamed (classNames t s).get? name) = _
  unfold Descriptor.renamed
  rw [get?_classNames, get?_classNames]
  cases last : t.classes.reverse.find? fun c => c.name 0 = name with
  | none =>
    have unlisted : ¬∃ c ∈ t.classes, c.name 0 = name := by
      rintro ⟨c, member, here⟩
      exact List.find?_eq_none.mp last c (List.mem_reverse.mpr member) (decide_eq_true here)
    exact built.renamed_of_unlisted ((apart name mentioned).resolve_left unlisted)
  | some c =>
    exact built.renamed_of_mem names (List.mem_reverse.mp (List.mem_of_find?_eq_some last))

theorem mapDescriptor_translated (built : Built t s d ix) (first : t.Distinct 0)
    (names : t.Distinct s) (closed : ∀ c ∈ t.classes, ';' ∉ (c.name s).toList)
    {descriptor : String}
    (apart : ∀ name ∈ Descriptor.names descriptor,
      (∃ c ∈ t.classes, c.name 0 = name) ∨ ∀ c ∈ t.classes, c.name s ≠ name) :
    ix.mapDescriptor (t.translated s descriptor) = t.translated d descriptor := by
  rw [← descriptorIn_eq first, ← descriptorIn_eq first]
  exact built.mapDescriptor_descriptorIn names closed apart

end Built

theorem members_classEntry (kind : MemberKind) (c : ClassMapping) :
    (classEntry t s d c).members kind = (c.members kind).map (memberEntry t s d) := by
  cases kind <;> rfl

/-- What tells the members of a class apart in a namespace. -/
def memberKey (t : MappingTable) (ns : ℕ) (m : MemberMapping) : String × String :=
  (m.name ns, t.translated ns m.descriptor)

def sourceKey (e : MemberEntry) : String × String := (e.sourceName, e.sourceDescriptor)

theorem sourceKey_memberEntry (first : t.Distinct 0) :
    sourceKey ∘ memberEntry t s d = memberKey t s := by
  funext m
  exact congrArg (Prod.mk (m.name s)) (congrFun (descriptorIn_eq first s) m.descriptor)

theorem find?_classEntry_eq_some_iff (first : t.Distinct 0) {kind : MemberKind} {c : ClassMapping}
    (distinct : ((c.members kind).map (memberKey t s)).Nodup) {name descriptor : String}
    {e : MemberEntry} :
    (classEntry t s d c).find? kind name descriptor = some e ↔
      ∃ m ∈ c.members kind, memberKey t s m = (name, descriptor) ∧ memberEntry t s d m = e := by
  have asked : (fun m : MemberEntry => decide (m.sourceName = name) &&
      decide (m.sourceDescriptor = descriptor)) =
        fun m => decide (sourceKey m = (name, descriptor)) := by
    funext m
    simp only [sourceKey, Prod.mk.injEq, Bool.decide_and]
  -- The last member with a key is the only one.
  have keys : (((c.members kind).map (memberEntry t s d)).reverse.map sourceKey).Nodup := by
    rw [List.map_reverse, List.nodup_reverse, List.map_map, sourceKey_memberEntry first]
    exact distinct
  have key (m : MemberMapping) := congrFun (sourceKey_memberEntry (s := s) (d := d) first) m
  rw [ClassEntry.find?, members_classEntry, asked, find?_key_eq_some_iff keys, List.mem_reverse,
    List.mem_map]
  constructor
  · rintro ⟨⟨m, member, rfl⟩, same⟩
    exact ⟨m, member, (key m).symm.trans same, rfl⟩
  · rintro ⟨m, member, same, rfl⟩
    exact ⟨⟨m, member, rfl⟩, (key m).trans same⟩

theorem Built.mapMember_eq_some_iff (built : Built t s d ix) (first : t.Distinct 0)
    (names : t.Distinct s) {kind : MemberKind}
    (distinct : ∀ c ∈ t.classes, ((c.members kind).map (memberKey t s)).Nodup)
    {owner name descriptor new : String} :
    ix.mapMember kind owner name descriptor = some new ↔
      ∃ c ∈ t.classes, c.name s = owner ∧
        ∃ m ∈ c.members kind, memberKey t s m = (name, descriptor) ∧ m.name d = new := by
  rw [mapMember, find?, built.classes, Option.map_eq_some_iff]
  simp only [Option.bind_eq_some_iff, Dict.get?_ofList_map_iff names]
  constructor
  · rintro ⟨e, ⟨_, ⟨c, member, here, rfl⟩, found⟩, rfl⟩
    obtain ⟨m, row, key, rfl⟩ :=
      (find?_classEntry_eq_some_iff first (distinct c member)).mp found
    exact ⟨c, member, here, m, row, key, rfl⟩
  · rintro ⟨c, member, here, m, row, key, rfl⟩
    exact ⟨_, ⟨_, ⟨c, member, here, rfl⟩,
      (find?_classEntry_eq_some_iff first (distinct c member)).mpr ⟨m, row, key, rfl⟩⟩, rfl⟩

end MappingIndex

end ModRemap
