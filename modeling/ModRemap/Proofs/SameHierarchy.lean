import Mathlib
import ModRemap.Proofs.Dict
import ModRemap.Remap.Remapper

/-! A class is remapped alike whatever the order in which the classes around it were registered. -/

namespace ModRemap

namespace Dict

variable {κ ν : Type} [DecidableEq κ]

theorem perm_of_get?_eq {d d' : Dict κ ν} (same : ∀ k, d.get? k = d'.get? k) :
    d.entries.Perm d'.entries := by
  refine (List.perm_ext_iff_of_nodup (d.nodup_keys.of_map _) (d'.nodup_keys.of_map _)).mpr ?_
  rintro ⟨k, v⟩
  rw [← get?_eq_some_iff, ← get?_eq_some_iff, same]

end Dict

namespace Hierarchy

variable {α : Type} {h h' : Hierarchy}

/-- The same headers, in any order. -/
def Alike (h h' : Hierarchy) : Prop := ∀ name, h.get? name = h'.get? name

namespace Alike

theorem parents (alike : h.Alike h') (name : String) : h.parents name = h'.parents name := by
  rw [Hierarchy.parents, Hierarchy.parents, alike name]

theorem edges (alike : h.Alike h') : h.edges = h'.edges := by
  have perm := (Dict.perm_of_get?_eq alike).map fun p => p.2.parents.length
  rw [Hierarchy.edges, Hierarchy.edges, ← List.sum_eq_foldr, ← List.sum_eq_foldr, Dict.values,
    Dict.values, List.map_map, List.map_map]
  exact perm.sum_eq

theorem erase (alike : h.Alike h') (name : String) :
    Alike (Dict.erase h name) (Dict.erase h' name) := by
  intro name'
  rw [Dict.get?_erase, Dict.get?_erase, alike name']

theorem searchWithin (alike : h.Alike h') (find : String → Option α) (n : ℕ)
    (queue : List String) :
    Hierarchy.searchWithin find n h queue = Hierarchy.searchWithin find n h' queue := by
  induction n generalizing h h' queue with
  | zero => rfl
  | succ n ih =>
    cases queue with
    | nil => rfl
    | cons name queue =>
      rw [Hierarchy.searchWithin, Hierarchy.searchWithin, alike.parents name,
        ih (alike.erase name)]

theorem search (alike : h.Alike h') (owner : String) (find : String → Option α) :
    h.search owner find = h'.search owner find := by
  rw [Hierarchy.search, Hierarchy.search, alike.edges, alike.searchWithin]

end Alike

/-- Headers take the places of those that are known by their names. -/
def add (h : Hierarchy) (headers : List ClassHeader) : Hierarchy :=
  headers.foldl (fun h header => h.insert header.name header) h

theorem get?_add (h : Hierarchy) (headers : List ClassHeader) (name : String) :
    (h.add headers).get? name =
      (headers.reverse.find? fun header => header.name = name).or (h.get? name) := by
  induction headers using List.reverseRecOn with
  | nil => rfl
  | append_singleton headers header ih =>
    have last : h.add (headers ++ [header]) = (h.add headers).insert header.name header :=
      List.foldl_append
    rw [last, Dict.get?_insert, ih, List.reverse_append, List.reverse_singleton,
      List.singleton_append, List.find?_cons]
    by_cases same : header.name = name
    · rw [if_pos same.symm, decide_eq_true same]
      rfl
    · rw [if_neg (Ne.symm same), decide_eq_false same]

/-- No class has a header in both. -/
def Unshared (headers headers' : List ClassHeader) : Prop :=
  ∀ header ∈ headers, ∀ header' ∈ headers', header.name ≠ header'.name

theorem Unshared.symm {headers headers' : List ClassHeader} (h : Unshared headers headers') :
    Unshared headers' headers :=
  fun header there header' there' => (h header' there' header there).symm

theorem Alike.trans {h'' : Hierarchy} (alike : h.Alike h') (alike' : h'.Alike h'') : h.Alike h'' :=
  fun name => (alike name).trans (alike' name)

theorem Alike.add (alike : h.Alike h') (headers : List ClassHeader) :
    (h.add headers).Alike (h'.add headers) := by
  intro name
  rw [get?_add, get?_add, alike name]

/-- Headers of different classes are added in either order. -/
theorem add_comm (h : Hierarchy) {headers headers' : List ClassHeader}
    (unshared : Unshared headers headers') :
    ((h.add headers).add headers').Alike ((h.add headers').add headers) := by
  intro name
  simp only [get?_add]
  cases first : headers.reverse.find? fun header => header.name = name with
  | none => rw [Option.none_or, Option.none_or]
  | some header =>
    cases second : headers'.reverse.find? fun header => header.name = name with
    | none => rw [Option.none_or, Option.none_or]
    | some header' =>
      have name₁ : header.name = name := by
        simpa only [decide_eq_true_eq] using List.find?_some first
      have name₂ : header'.name = name := by
        simpa only [decide_eq_true_eq] using List.find?_some second
      have there := List.mem_reverse.mp (List.mem_of_find?_eq_some first)
      have there' := List.mem_reverse.mp (List.mem_of_find?_eq_some second)
      exact absurd (name₁.trans name₂.symm) (unshared header there header' there')

theorem Alike.foldl_add (alike : h.Alike h') (jars : List (List ClassHeader)) :
    (jars.foldl Hierarchy.add h).Alike (jars.foldl Hierarchy.add h') := by
  induction jars generalizing h h' with
  | nil => exact alike
  | cons headers jars ih => exact ih (alike.add headers)

/-- Jars that share no class are registered in any order. -/
theorem alike_of_perm {jars jars' : List (List ClassHeader)} (perm : jars.Perm jars')
    (unshared : jars.Pairwise Unshared) (h : Hierarchy) :
    (jars.foldl add h).Alike (jars'.foldl add h) := by
  induction perm generalizing h with
  | nil => exact fun _ => rfl
  | cons headers _ ih => exact ih (List.pairwise_cons.mp unshared).2 (h.add headers)
  | @swap headers headers' jars =>
    have apart := (List.pairwise_cons.mp unshared).1 headers List.mem_cons_self
    exact (add_comm h apart).foldl_add jars
  | trans perm _ ih ih' =>
    exact (ih unshared h).trans (ih' (perm.pairwise unshared Unshared.symm) h)

end Hierarchy

/-- The same index, and the same hierarchy in any order. -/
structure Resolver.Alike (r r' : Resolver) : Prop where
  index : r.index = r'.index
  hierarchy : r.hierarchy.Alike r'.hierarchy

namespace Resolver.Alike

variable {r r' : Resolver} (alike : r.Alike r')

include alike

theorem member (kind : MemberKind) (owner name descriptor : String) :
    r.member kind owner name descriptor = r'.member kind owner name descriptor := by
  rw [Resolver.member, Resolver.member, alike.index, alike.hierarchy.search]

theorem callSite (c : ClassFile) (bootstrap : UInt16) (name descriptor : String) :
    r.callSite c bootstrap name descriptor = r'.callSite c bootstrap name descriptor := by
  unfold Resolver.callSite
  split
  · rfl
  · simp only [alike.member, alike.hierarchy.search, alike.index]

theorem signature (s : String) : r.signature s = r'.signature s := by
  rw [Resolver.signature, Resolver.signature, alike.index]

theorem localType (table : LocalTable) (s : String) : r.localType table s = r'.localType table s := by
  cases table with
  | descriptors => rw [Resolver.localType, Resolver.localType, alike.index]
  | signatures => exact alike.signature s

theorem remapLocals (table : LocalTable) (n : ℕ) (s : Bytes) :
    r.remapLocals table n s = r'.remapLocals table n s := by
  induction n generalizing s with
  | zero => rfl
  | succ n ih => simp only [Resolver.remapLocals, ih, alike.localType]

theorem remapBody (name : String) (length : ℕ) (s : Bytes) :
    r.remapBody name length s = r'.remapBody name length s := by
  unfold Resolver.remapBody
  split
  · rfl
  · simp only [alike.remapLocals]

theorem remapAttributes (n : ℕ) (s : Bytes) : r.remapAttributes n s = r'.remapAttributes n s := by
  induction n generalizing s with
  | zero => rfl
  | succ n ih => simp only [Resolver.remapAttributes, ih, alike.remapBody]

theorem remapCode (info : Bytes) : r.remapCode info = r'.remapCode info := by
  simp only [Resolver.remapCode, alike.remapAttributes]

theorem remapAttribute : r.remapAttribute = r'.remapAttribute := by
  funext a
  simp only [Resolver.remapAttribute, alike.signature, alike.remapCode]

theorem reference (tag : UInt8) (owner name descriptor : String) :
    r.reference tag owner name descriptor = r'.reference tag owner name descriptor := by
  simp only [Resolver.reference, alike.member]

theorem remapConstant (c : ClassFile) (k : Constant) : r.remapConstant c k = r'.remapConstant c k := by
  cases k with
  | classRef name => simp only [Resolver.remapConstant, Resolver.classConstant, alike.index]
  | memberRef tag owner symbol => simp only [Resolver.remapConstant, alike.reference, alike.index]
  | dynamic tag bootstrap symbol => simp only [Resolver.remapConstant, alike.callSite, alike.index]
  | methodType descriptor => simp only [Resolver.remapConstant, alike.index]
  | _ => rfl

theorem remapSlots (c : ClassFile) (slot : ℕ) (ks : List Constant) :
    r.remapSlots c slot ks = r'.remapSlots c slot ks := by
  induction ks generalizing slot with
  | nil => rfl
  | cons k ks ih => simp only [Resolver.remapSlots, ih, alike.remapConstant]

theorem declaration (kind : MemberKind) (access : UInt16) (owner name descriptor : String) :
    r.declaration kind access owner name descriptor =
      r'.declaration kind access owner name descriptor := by
  cases kind with
  | field => simp only [Resolver.declaration, alike.member]
  | method => simp only [Resolver.declaration, alike.member, alike.index]

theorem remapMember (kind : MemberKind) (owner : String) :
    r.remapMember kind owner = r'.remapMember kind owner := by
  funext m
  simp only [Resolver.remapMember, alike.declaration, alike.remapAttribute, alike.index]

theorem remapClass (bytes : Bytes) : r.remapClass bytes = r'.remapClass bytes := by
  simp only [Resolver.remapClass, Resolver.remapTables, alike.remapSlots, alike.remapMember,
    alike.remapAttribute]

theorem remapEntry (e : Entry) : Remapper.remapEntry r e = Remapper.remapEntry r' e := by
  rw [Remapper.remapEntry, Remapper.remapEntry, alike.remapClass]

end Resolver.Alike

end ModRemap
