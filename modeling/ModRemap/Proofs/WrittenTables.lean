import Mathlib
import ModRemap.Proofs.Reader
import ModRemap.Proofs.TinyLines

/-! Tables written down in both versions of the format. Lines that say nothing may stand between the
others, and names that equal the first one may be left out. -/

namespace ModRemap

/-! ### Tables -/

namespace MappingTable

variable (t : MappingTable)

/-- The names of all classes and members. -/
def nameRows : List (List String) :=
  t.classes.flatMap fun c => c.names :: (c.fields ++ c.methods).map MemberMapping.names

/-- A table that a file can hold: there is a name in each namespace. -/
structure Regular : Prop where
  wide : 2 ≤ t.namespaces.length
  namespaces : ∀ ns ∈ t.namespaces, Tiny.Plain ns
  descriptors : ∀ c ∈ t.classes, ∀ m ∈ c.fields ++ c.methods, Tiny.Plain m.descriptor
  names : ∀ names ∈ t.nameRows, names.length = t.namespaces.length ∧ completeNames names = names

def PlainNames : Prop := ∀ names ∈ t.nameRows, ∀ name ∈ names, Tiny.Plain name

end MappingTable

namespace Tiny

open Text

/-! ### Writing -/

/-- A member, with its names as they are written, and lines that follow it. -/
structure WrittenMember where
  kind : MemberKind
  descriptor : String
  names : List String
  passed : List String := []

/-- A class with its members in any order. -/
structure WrittenClass where
  names : List String
  passed : List String := []
  members : List WrittenMember

def WrittenMember.Stands (m : MemberMapping) (w : WrittenMember) : Prop :=
  w.descriptor = m.descriptor ∧ Shows m.names w.names

def WrittenClass.ofKind (w : WrittenClass) (kind : MemberKind) : List WrittenMember :=
  w.members.filter fun m => m.kind = kind

/-- What is written is the class. -/
structure WrittenClass.Stands (c : ClassMapping) (w : WrittenClass) : Prop where
  names : Shows c.names w.names
  fields : List.Forall₂ WrittenMember.Stands c.fields (w.ofKind .field)
  methods : List.Forall₂ WrittenMember.Stands c.methods (w.ofKind .method)

/-- The name of a kind in version 1. -/
def word : MemberKind → String
  | .field => "FIELD"
  | .method => "METHOD"

/-- The name of a kind in version 2. -/
def letter : MemberKind → String
  | .field => "f"
  | .method => "m"

def WrittenMember.columns₁ (owner : String) (m : WrittenMember) : List String :=
  word m.kind :: owner :: m.descriptor :: m.names

def WrittenClass.rows₁ (w : WrittenClass) : List (List String) :=
  ("CLASS" :: w.names) :: w.members.map (WrittenMember.columns₁ (w.names.headD ""))

/-- A table in version 1: each class is followed by its members. -/
def version₁ (namespaces : List String) (classes : List WrittenClass) : String :=
  unlines ((("v1" :: namespaces) :: classes.flatMap WrittenClass.rows₁).map row)

def WrittenMember.lines₂ (write : String → String) (m : WrittenMember) : List String :=
  row ("" :: letter m.kind :: m.descriptor :: m.names.map write) :: m.passed

def WrittenClass.lines₂ (write : String → String) (w : WrittenClass) : List String :=
  row ("c" :: w.names.map write) :: w.passed ++ w.members.flatMap (WrittenMember.lines₂ write)

/-- A table in version 2, with names written as they are. -/
def version₂ (namespaces : List String) (classes : List WrittenClass) : String :=
  unlines (row ("tiny" :: "2" :: "0" :: namespaces) :: classes.flatMap (WrittenClass.lines₂ id))

/-- A table in version 2 whose names are escaped, which a property says. -/
def version₂Escaped (namespaces : List String) (classes : List WrittenClass) : String :=
  unlines (row ("tiny" :: "2" :: "0" :: namespaces) :: row ["", "escaped-names"] ::
    classes.flatMap (WrittenClass.lines₂ escape))

example : version₂ ["a", "b"] [⟨["x", "y"], ["\tc\tnote"], [⟨.field, "I", ["f", ""], [""]⟩]⟩] =
    "tiny\t2\t0\ta\tb\nc\tx\ty\n\tc\tnote\n\tf\tI\tf\t\n\n" := by decide

/-! ### Reading back -/

/-- The class that a written one is read as. -/
def WrittenClass.read (w : WrittenClass) : ClassMapping :=
  w.members.foldl (fun c m => c.add m.kind (.make m.descriptor m.names)) (.make w.names)

theorem read_of_stands {c : ClassMapping} {w : WrittenClass} (stands : w.Stands c)
    (complete : ∀ names ∈ c.names :: (c.fields ++ c.methods).map MemberMapping.names,
      completeNames names = names) : w.read = c := by
  have fold (ms : List WrittenMember) (c : ClassMapping) :
      ms.foldl (fun c m => c.add m.kind (.make m.descriptor m.names)) c =
        { c with
          fields := c.fields ++ (ms.filter fun m => m.kind = .field).map fun m => .make m.descriptor m.names
          methods := c.methods ++ (ms.filter fun m => m.kind = .method).map fun m => .make m.descriptor m.names } := by
    induction ms generalizing c with
    | nil => simp
    | cons m ms ih =>
      obtain ⟨kind, descriptor, names, passed⟩ := m
      rw [List.foldl_cons, ih]
      cases kind <;> simp [ClassMapping.add]
  have members {ms : List MemberMapping} {written : List WrittenMember}
      (stand : List.Forall₂ WrittenMember.Stands ms written)
      (complete : ∀ m ∈ ms, completeNames m.names = m.names) :
      written.map (fun m => MemberMapping.make m.descriptor m.names) = ms := by
    induction stand with
    | nil => rfl
    | cons here later ih =>
      obtain ⟨first, others⟩ := List.forall_mem_cons.mp complete
      obtain ⟨descriptor, names⟩ := here
      rw [List.map_cons, ih others, MemberMapping.make, descriptor, completeNames_of_shows first names]
  obtain ⟨first, others⟩ := List.forall_mem_cons.mp complete
  have complete' : ∀ m ∈ c.fields ++ c.methods, completeNames m.names = m.names :=
    fun m member => others _ (List.mem_map_of_mem member)
  rw [WrittenClass.read, fold]
  have fields := members stands.fields fun m member => complete' m (List.mem_append_left _ member)
  have methods := members stands.methods fun m member => complete' m (List.mem_append_right _ member)
  rw [WrittenClass.ofKind] at fields methods
  rw [fields, methods, ClassMapping.make, completeNames_of_shows first stands.names]
  rfl

theorem exists_member {c : ClassMapping} {w : WrittenClass} (stands : w.Stands c) {m : WrittenMember}
    (member : m ∈ w.members) : ∃ m' ∈ c.fields ++ c.methods, m.Stands m' := by
  have inKind : m ∈ w.ofKind m.kind := List.mem_filter.mpr ⟨member, decide_eq_true rfl⟩
  cases kind : m.kind with
  | field =>
    obtain ⟨m', listed, holds⟩ := exists_of_mem_right stands.fields (kind ▸ inKind)
    exact ⟨m', List.mem_append_left _ listed, holds⟩
  | method =>
    obtain ⟨m', listed, holds⟩ := exists_of_mem_right stands.methods (kind ▸ inKind)
    exact ⟨m', List.mem_append_right _ listed, holds⟩

/-- What is known of a written class of a table. -/
structure WrittenClass.Fits (t : MappingTable) (w : WrittenClass) : Prop where
  wide : w.names.length = t.namespaces.length
  members : ∀ m ∈ w.members, m.names.length = t.namespaces.length ∧ Plain m.descriptor
  plain : t.PlainNames → (∀ col ∈ w.names, Plain col) ∧ ∀ m ∈ w.members, ∀ col ∈ m.names, Plain col

theorem fits_of_stands {t : MappingTable} (regular : t.Regular) {c : ClassMapping}
    (listed : c ∈ t.classes) {w : WrittenClass} (stands : w.Stands c) : w.Fits t := by
  have own : c.names ∈ t.nameRows :=
    List.mem_flatMap.mpr ⟨c, listed, List.mem_cons_self⟩
  have inner : ∀ m ∈ c.fields ++ c.methods, m.names ∈ t.nameRows := fun m member =>
    List.mem_flatMap.mpr ⟨c, listed, List.mem_cons_of_mem _ (List.mem_map_of_mem member)⟩
  refine ⟨?_, fun m member => ?_, fun plain => ⟨?_, fun m member => ?_⟩⟩
  · exact stands.names.2.length_eq.symm.trans (regular.names _ own).1
  · obtain ⟨m', listed', descriptor, shows⟩ := exists_member stands member
    exact ⟨shows.2.length_eq.symm.trans (regular.names _ (inner m' listed')).1,
      descriptor ▸ regular.descriptors c listed m' listed'⟩
  · exact plain_of_shows (plain _ own) stands.names
  · obtain ⟨m', listed', descriptor, shows⟩ := exists_member stands member
    exact plain_of_shows (plain _ (inner m' listed')) shows

/-- Reading every written class gives the classes of the table. -/
theorem map_read {t : MappingTable} (regular : t.Regular) {ws : List WrittenClass}
    (stand : List.Forall₂ (fun c w => WrittenClass.Stands c w) t.classes ws) :
    ws.map WrittenClass.read = t.classes := by
  have complete : ∀ c ∈ t.classes, ∀ names ∈ c.names :: (c.fields ++ c.methods).map MemberMapping.names,
      completeNames names = names := fun c listed names row =>
    (regular.names names (List.mem_flatMap.mpr ⟨c, listed, row⟩)).2
  clear regular
  generalize t.classes = classes at stand complete
  induction stand with
  | nil => rfl
  | cons here _ ih =>
    obtain ⟨first, others⟩ := List.forall_mem_cons.mp complete
    rw [List.map_cons, ih others, read_of_stands here first]

end Tiny

end ModRemap
