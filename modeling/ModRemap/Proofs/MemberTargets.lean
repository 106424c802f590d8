import Mathlib
import ModRemap.Proofs.IndexRows
import ModRemap.Proofs.InverseIndex
import ModRemap.Proofs.ReferenceForms
import ModRemap.Proofs.SupertypeSearch
import ModRemap.Proofs.WidenerLines
import ModRemap.Remap.ClassFile

/-! Reference maps, access wideners and class files call a listed member the same. A reference map
takes the target descriptor from the table, the others rename the source descriptor. -/

namespace ModRemap

open Text

namespace MemberKind

/-- A member as a reference writes it. -/
def write : MemberKind → String → String → String
  | .field, name, descriptor => name ++ ":" ++ descriptor
  | .method, name, descriptor => name ++ descriptor

/-- The word for the kind in an access widener. -/
def word : MemberKind → String
  | .field => "field"
  | .method => "method"

/-- The name and the descriptor can be told apart in what is written. -/
def Legible : MemberKind → String → String → Prop
  | .field, name, descriptor =>
    ':' ∉ name.toList ∧ '(' ∉ name.toList ∧ '(' ∉ descriptor.toList
  | .method, name, descriptor => '(' ∉ name.toList ∧ descriptor.toList.head? = some '('

def ref : MemberKind → String → String → MappingIndex.MemberRef
  | .field => .field
  | .method => .method

end MemberKind

namespace MappingTable

/-- The class names of a namespace can stand in references, and a descriptor mentions no class by a
name that another one has there. -/
structure Legible (t : MappingTable) (s : ℕ) : Prop where
  distinct : t.Distinct s
  plain : ∀ c ∈ t.classes,
    ';' ∉ (c.name s).toList ∧ '(' ∉ (c.name s).toList ∧ ':' ∉ (c.name s).toList
  apart : ∀ c ∈ t.classes, ∀ kind, ∀ m ∈ c.members kind, ∀ name ∈ Descriptor.names m.descriptor,
    (∃ c' ∈ t.classes, c'.name 0 = name) ∨ ∀ c' ∈ t.classes, c'.name s ≠ name

instance (t : MappingTable) (s : ℕ) : Decidable (t.Legible s) :=
  decidable_of_iff (_ ∧ _ ∧ _) ⟨fun h => ⟨h.1, h.2.1, h.2.2⟩, fun h => ⟨h.1, h.2, h.3⟩⟩

end MappingTable

namespace MappingIndex

theorem ofText_write {kind : MemberKind} {name descriptor : String}
    (legible : kind.Legible name descriptor) :
    MemberRef.ofText (kind.write name descriptor) = kind.ref name descriptor := by
  cases kind with
  | field =>
    obtain ⟨colon, inName, inDescriptor⟩ := legible
    have text : (MemberKind.field.write name descriptor).toList =
        name.toList ++ ':' :: descriptor.toList := by
      rw [MemberKind.write, String.toList_append, String.toList_append, List.append_assoc]
      rfl
    have open? : (name.toList ++ ':' :: descriptor.toList).contains '(' = false := by
      rw [← Bool.not_eq_true, List.contains_iff_mem, List.mem_append, List.mem_cons]
      rintro (member | colon | member)
      · exact inName member
      · exact absurd colon (by decide)
      · exact inDescriptor member
    unfold MemberRef.ofText
    dsimp only
    rw [text, open?, if_neg Bool.false_ne_true, cut?_eq_some_iff.mpr ⟨rfl, colon⟩]
    dsimp only
    rw [String.ofList_toList, String.ofList_toList]
    rfl
  | method =>
    obtain ⟨inName, start⟩ := legible
    obtain ⟨rest, text⟩ : ∃ rest, descriptor.toList = '(' :: rest := List.head?_eq_some_iff.mp start
    have other : ∀ x ∈ name.toList, decide (x ≠ '(') = true := fun x member =>
      decide_eq_true fun same => inName (same ▸ member)
    have found : (name.toList ++ '(' :: rest).contains '(' = true :=
      List.contains_iff_mem.mpr (List.mem_append_right _ List.mem_cons_self)
    unfold MemberRef.ofText
    dsimp only
    rw [MemberKind.write, String.toList_append, text, found, if_pos rfl,
      List.takeWhile_append_of_pos other, List.dropWhile_append_of_pos other,
      List.takeWhile_cons_of_neg (by decide), List.dropWhile_cons_of_neg (by decide), ← text,
      List.append_nil, String.ofList_toList, String.ofList_toList]
    rfl

/-- A reference to a class and a member in it is split at the first semicolon. -/
theorem mapReference_owned (ix : MappingIndex) {owner : String}
    (plain : ';' ∉ owner.toList ∧ '(' ∉ owner.toList ∧ ':' ∉ owner.toList) (member : String) :
    ix.mapReference ("L" ++ owner ++ ";" ++ member) = ix.mapOwned owner member := by
  have closed : ';' ∉ ("L" ++ owner).toList := by simp [plain.1]
  have named : looksLikeMember ("L" ++ owner) = false := by
    simp [looksLikeMember, starts, dropStart?, plain.2]
  have name : internal ("L" ++ owner) = owner := by simp [internal, dropStart?]
  rw [mapReference_of_owned rfl closed named, name]

variable {t : MappingTable} {s d : ℕ} {ix : MappingIndex}

/-- The entry that is found for a row of the table. Where rows repeat a member it may be of another
row, but has the same name and descriptor in the source. -/
theorem Built.exists_entry (built : Built t s d ix) (names : t.Distinct s) {c : ClassMapping}
    (listed : c ∈ t.classes) {kind : MemberKind} {m : MemberMapping} (row : m ∈ c.members kind) :
    ix.classes.get? (c.name s) = some (classEntry t s d c) ∧ ∃ m' ∈ c.members kind,
      descriptorIn t s m'.descriptor = descriptorIn t s m.descriptor ∧
        (classEntry t s d c).find? kind (m.name s) (descriptorIn t s m.descriptor) =
          some (memberEntry t s d m') := by
  constructor
  · rw [built.classes]
    exact (Dict.get?_ofList_map_iff names _ _).mpr ⟨c, listed, rfl, rfl⟩
  rw [ClassEntry.find?, members_classEntry]
  have there : ((((c.members kind).map (memberEntry t s d)).reverse.find? fun e =>
      e.sourceName = m.name s && e.sourceDescriptor = descriptorIn t s m.descriptor)).isSome := by
    refine List.find?_isSome.mpr ⟨memberEntry t s d m, ?_, ?_⟩
    · exact List.mem_reverse.mpr (List.mem_map_of_mem row)
    · exact Bool.and_eq_true_iff.mpr ⟨decide_eq_true rfl, decide_eq_true rfl⟩
  obtain ⟨e, found⟩ := Option.isSome_iff_exists.mp there
  obtain ⟨m', row', rfl⟩ := List.mem_map.mp (List.mem_reverse.mp (List.mem_of_find?_eq_some found))
  have asked := List.find?_some found
  rw [Bool.and_eq_true, decide_eq_true_eq, decide_eq_true_eq] at asked
  exact ⟨m', row', asked.2, found⟩

theorem memberTarget_write {c : ClassEntry} {owner : String}
    (entry : ix.classes.get? owner = some c) {kind : MemberKind} {name descriptor : String}
    (legible : kind.Legible name descriptor) {e : MemberEntry}
    (found : c.find? kind name descriptor = some e) :
    ix.memberTarget ("L" ++ owner ++ ";") (kind.write name descriptor) =
      kind.write e.targetName e.targetDescriptor := by
  unfold memberTarget
  rw [bareClass_descriptor, entry]
  dsimp only
  rw [ofText_write legible]
  cases kind <;>
  · unfold MemberKind.ref
    dsimp only
    rw [found]
    rfl

/-- What a declaration that makes a member accessible becomes, in every version. -/
theorem remapDeclaration_accessible (ix : MappingIndex) (kind : MemberKind)
    (owner name descriptor : String) (v : AccessWidener.Version) :
    AccessWidener.remapDeclaration ix v ["accessible", kind.word, owner, name, descriptor] =
      .ok ["accessible", kind.word, (ix.mapClass owner).getD owner,
        (ix.mapMember kind owner name descriptor).getD name, ix.mapDescriptor descriptor] := by
  have base : AccessWidener.baseAccess v "accessible" = .ok "accessible" := rfl
  refine except_bind_eq_ok.mpr ⟨_, base, ?_⟩
  cases kind <;> simp [MemberKind.word, AccessWidener.remapMember]

theorem isToken_accessible : AccessWidener.IsToken "accessible" := by
  simp [AccessWidener.IsToken, isBlank]

theorem isToken_word (kind : MemberKind) : AccessWidener.IsToken kind.word := by
  cases kind <;> simp [MemberKind.word, AccessWidener.IsToken, isBlank]

/-- A member and its owner, as they are called in all formats. -/
structure Agrees (ix : MappingIndex) (kind : MemberKind)
    (owner name descriptor owner' name' descriptor' : String) : Prop where
  mapClass : ix.mapClass owner = some owner'
  mapMember : ix.mapMember kind owner name descriptor = some name'
  mapDescriptor : ix.mapDescriptor descriptor = descriptor'
  memberTarget : kind.Legible name descriptor →
    ix.memberTarget ("L" ++ owner ++ ";") (kind.write name descriptor) =
      kind.write name' descriptor'
  mapReference : kind.Legible name descriptor →
    ix.mapReference ("L" ++ owner ++ ";" ++ kind.write name descriptor) =
      "L" ++ owner' ++ ";" ++ kind.write name' descriptor'
  /-- The declaration may follow any access widener that is accepted. -/
  declaration : (∀ token ∈ [owner, name, descriptor], AccessWidener.IsToken token) →
    ∀ front written, AccessWidener.remap ix (bytesOf front) = .ok written →
      AccessWidener.remap ix (bytesOf (front ++ "\n" ++
          AccessWidener.tabbed ["accessible", kind.word, owner, name, descriptor])) =
        .ok (written ++ bytesOf ("\n" ++
          AccessWidener.tabbed ["accessible", kind.word, owner', name', descriptor']))
  /-- Whatever else is known of the owner. -/
  reference : ∀ r : Resolver, r.index = ix → Resolver.isArray owner = false →
    ∀ tag, (tag = Constant.fieldTag ↔ kind = .field) →
      r.classConstant owner = owner' ∧ r.reference tag owner name descriptor = name'

/-- The descriptor in the table is of the first namespace; it leads to the target directly and by way
of the source. -/
theorem exists_agrees {source target : String} (hs : t.namespaceId source = .ok s)
    (hd : t.namespaceId target = .ok d) (legible : t.Legible s) :
    ∃ ix, build t source target = .ok ix ∧ ∀ c ∈ t.classes, ∀ kind, ∀ m ∈ c.members kind,
      ∃ name', ix.Agrees kind (c.name s) (m.name s) (descriptorIn t s m.descriptor)
        (c.name d) name' (ix.mapDescriptor (descriptorIn t s m.descriptor)) := by
  obtain ⟨ix, built, of⟩ := exists_build hs hd
  refine ⟨ix, built, fun c listed kind m row => ?_⟩
  obtain ⟨entry, m', row', same, found⟩ := of.exists_entry legible.distinct listed row
  have mapClass : ix.mapClass (c.name s) = some (c.name d) := congrArg (Option.map _) entry
  have mapMember : ix.mapMember kind (c.name s) (m.name s) (descriptorIn t s m.descriptor) =
      some (m'.name d) := by
    rw [MappingIndex.mapMember, MappingIndex.find?, entry, Option.bind_some, found]
    rfl
  have mapDescriptor : ix.mapDescriptor (descriptorIn t s m.descriptor) =
      descriptorIn t d m'.descriptor :=
    same ▸ of.mapDescriptor_descriptorIn legible.distinct
      (fun c' hc' => (legible.plain c' hc').1)
      (legible.apart c listed kind m' row')
  have memberTarget (legible : kind.Legible (m.name s) (descriptorIn t s m.descriptor)) :
      ix.memberTarget ("L" ++ c.name s ++ ";")
          (kind.write (m.name s) (descriptorIn t s m.descriptor)) =
        kind.write (m'.name d) (ix.mapDescriptor (descriptorIn t s m.descriptor)) :=
    mapDescriptor ▸ memberTarget_write entry legible found
  refine ⟨m'.name d, mapClass, mapMember, rfl, memberTarget, fun readable => ?_,
    fun tokens front written accepted => ?_, fun r index array tag field => ?_⟩
  · rw [mapReference_owned ix (legible.plain c listed), mapOwned, memberTarget readable,
      classTarget, bareClass_descriptor, mapClass]
  · have all : ∀ token ∈ ["accessible", kind.word, c.name s, m.name s,
        descriptorIn t s m.descriptor], AccessWidener.IsToken token :=
      List.forall_mem_cons.mpr ⟨isToken_accessible, List.forall_mem_cons.mpr ⟨isToken_word kind, tokens⟩⟩
    refine AccessWidener.remap_append accepted (List.cons_ne_nil _ _) all fun v => ?_
    rw [remapDeclaration_accessible, mapClass, mapMember]
    rfl
  · subst index
    have sort : (if tag = Constant.fieldTag then MemberKind.field else .method) = kind := by
      cases kind with
      | field => exact if_pos (field.mpr rfl)
      | method => exact if_neg fun same => by cases field.mp same
    have nearest : r.hierarchy.search (c.name s) (fun owner => r.index.mapMember kind owner
        (m.name s) (descriptorIn t s m.descriptor)) = some (m'.name d) :=
      Hierarchy.search_of_self mapMember
    constructor
    · rw [Resolver.classConstant, array, if_neg Bool.false_ne_true, mapClass, Option.getD_some]
    · rw [Resolver.reference, array, if_neg Bool.false_ne_true, sort, Resolver.member, nearest,
        Option.getD_some]

/-- The source is not the first namespace, and the method is listed twice. -/
theorem exists_agrees_repeated :
    let t : MappingTable := ⟨["a", "b", "c"], [⟨["A", "x", "y"], [],
      [⟨"(LA;LB;)V", ["m", "n", "o"]⟩, ⟨"(LA;LB;)V", ["k", "n", "p"]⟩]⟩, ⟨["B", "A", "z"], [], []⟩]⟩
    t.Legible 1 ∧ ∃ ix, build t "b" "c" = .ok ix ∧
      ix.mapMethod "x" "n" "(Lx;LA;)V" = some "p" ∧ ix.mapDescriptor "(Lx;LA;)V" = "(Ly;Lz;)V" ∧
      ix.memberTarget "Lx;" "n(Lx;LA;)V" = "p(Ly;Lz;)V" ∧
      ix.mapReference "Lx;n(Lx;LA;)V" = "Ly;p(Ly;Lz;)V" ∧
      AccessWidener.remap ix (bytesOf
          "accessWidener v1 b\n\naccessible\tmethod\tx\tn\t(Lx;LA;)V") = .ok (bytesOf
          "accessWidener\tv1\tc\n\naccessible\tmethod\ty\tp\t(Ly;Lz;)V") := by
  intro t
  have legible : t.Legible 1 := by decide +kernel
  have hs : t.namespaceId "b" = .ok 1 := rfl
  have hd : t.namespaceId "c" = .ok 2 := rfl
  obtain ⟨ix, built, agrees⟩ := exists_agrees hs hd legible
  have index : ix = ⟨"b", "c", Dict.ofList [("x", ⟨"y", [], [⟨"n", "(Lx;LA;)V", "o", "(Ly;Lz;)V"⟩,
      ⟨"n", "(Lx;LA;)V", "p", "(Ly;Lz;)V"⟩]⟩), ("A", ⟨"z", [], []⟩)],
      Dict.ofList [("y", "x"), ("z", "A")]⟩ :=
    Except.ok.inj (built.symm.trans (by decide +kernel))
  obtain ⟨name', names⟩ := agrees ⟨["A", "x", "y"], [], [⟨"(LA;LB;)V", ["m", "n", "o"]⟩,
    ⟨"(LA;LB;)V", ["k", "n", "p"]⟩]⟩ List.mem_cons_self .method ⟨"(LA;LB;)V", ["m", "n", "o"]⟩
      List.mem_cons_self
  have source : descriptorIn t 1 "(LA;LB;)V" = "(Lx;LA;)V" := by decide +kernel
  have target : ix.mapDescriptor "(Lx;LA;)V" = "(Ly;Lz;)V" := by
    rw [index]
    decide +kernel
  rw [source, target] at names
  have found : ix.mapMember .method "x" "n" "(Lx;LA;)V" = some "p" := by
    rw [index]
    decide +kernel
  obtain rfl : "p" = name' := Option.some.inj (found.symm.trans names.mapMember)
  have readable : MemberKind.method.Legible "n" "(Lx;LA;)V" := ⟨by decide, rfl⟩
  have tokens : ∀ token ∈ ["x", "n", "(Lx;LA;)V"], AccessWidener.IsToken token := by
    simp [AccessWidener.IsToken, isBlank]
  have accepted : AccessWidener.remap ix (bytesOf "accessWidener v1 b\n") =
      .ok (bytesOf "accessWidener\tv1\tc\n") := by
    rw [index]
    decide +kernel
  refine ⟨legible, ix, built, found, target, ?_, ?_, ?_⟩
  · exact names.memberTarget readable
  · exact names.mapReference readable
  · exact names.declaration tokens _ _ accepted

end MappingIndex

end ModRemap
