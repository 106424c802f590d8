import Mathlib
import ModRemap.Proofs.JarFiles
import ModRemap.Proofs.SameHierarchy

/-! What the entries of a jar become: which of them are read, collected, and put back. -/

namespace ModRemap

theorem except_mapM_eq_ok {ε α β : Type} {f : α → Except ε β} {as : List α} {bs : List β} :
    as.mapM f = .ok bs ↔ List.Forall₂ (fun a b => f a = .ok b) as bs := by
  induction as generalizing bs with
  | nil =>
    rw [List.mapM_nil, List.forall₂_nil_left_iff]
    exact ⟨fun h => (Except.ok.inj h).symm, fun h => h ▸ rfl⟩
  | cons a as ih =>
    rw [List.mapM_cons, except_bind_eq_ok, List.forall₂_cons_left_iff]
    refine exists_congr fun b => ?_
    rw [except_bind_eq_ok]
    constructor
    · rintro ⟨first, bs', rest, done⟩
      exact ⟨bs', first, ih.mp rest, (Except.ok.inj done).symm⟩
    · rintro ⟨bs', first, rest, rfl⟩
      exact ⟨first, bs', ih.mpr rest, rfl⟩

/-- The entry as the archive lists it that holds it. -/
def Entry.listed (e : Entry) : Listed := ⟨e.name, .ok e.bytes⟩

theorem Entry.listed_injective : Function.Injective Entry.listed := by
  intro e e' same
  obtain ⟨name, body⟩ := Listed.mk.injEq .. ▸ same
  cases e
  cases e'
  obtain rfl := name
  obtain rfl := Except.ok.inj body
  rfl

/-- A name ends as its last character does, so no class is a directory. -/
theorem isDirectoryName_of_class {name : String} (h : Jar.isClass name = true) :
    isDirectoryName name = false := by
  obtain ⟨front, named⟩ := ends_iff.mp h
  have last : name.toList.getLast? = some 's' := by
    rw [named, List.getLast?_append_of_ne_nil front (by decide)]
    rfl
  rw [isDirectoryName, last]
  decide

theorem isInput_iff {name : String} : Remapper.isInput name = true ↔ Jar.isClass name = true := by
  unfold Remapper.isInput
  constructor
  · exact fun h => (Bool.and_eq_true_iff.mp h).2
  · intro h
    rw [isDirectoryName_of_class h, h]
    rfl

namespace Jar

variable {wanted : String → Bool} {fs fs' : Files} {path : String}

theorem copied_name (e : Entry) : (copied e).name = e.name := by
  unfold copied
  split_ifs
  · rfl
  · rfl

theorem open_eq_ok {e : Listed} {bytes : Bytes} {body : Except ArchiveFault Bytes}
    (opened : e.open = .ok body) (read : body = .ok bytes) : e = Entry.listed ⟨e.name, bytes⟩ := by
  unfold Listed.open at opened
  split at opened
  · exact nomatch opened
  · obtain ⟨name, body'⟩ := e
    obtain rfl := Except.ok.inj opened
    rw [Entry.listed]
    exact congrArg (Listed.mk name) read

theorem entry?_eq_ok {e : Listed} {found : Option Entry} (h : entry? wanted e = .ok found) :
    if wanted e.name then ∃ c, found = some c ∧ e = c.listed else found = none := by
  obtain ⟨body, opened, h⟩ := except_bind_eq_ok.mp h
  split_ifs at h ⊢ with named
  · obtain ⟨bytes, read, h⟩ := except_bind_eq_ok.mp h
    obtain rfl := Except.ok.inj h
    exact ⟨_, rfl, open_eq_ok (fault_eq_ok.mp opened) (fault_eq_ok.mp read)⟩
  · exact (Except.ok.inj h).symm

theorem list_eq_ok {listed : List Listed} : list fs path = .ok listed ↔
    ∃ content, fs.read path = .ok content ∧ content.list = .ok listed := by
  unfold list Files.read
  constructor
  · intro h
    obtain ⟨n, opened, h⟩ := except_bind_eq_ok.mp h
    cases n with
    | directory => exact nomatch h
    | file content =>
      exact ⟨content, except_bind_eq_ok.mpr ⟨_, file_eq_ok.mp opened, rfl⟩, fault_eq_ok.mp h⟩
  · rintro ⟨content, read, listed⟩
    obtain ⟨n, opened, read⟩ := except_bind_eq_ok.mp read
    cases n with
    | directory => exact nomatch read
    | file content' =>
      obtain rfl := Except.ok.inj read
      exact except_bind_eq_ok.mpr ⟨_, file_eq_ok.mpr opened, fault_eq_ok.mpr listed⟩

/-- What a name leads to: an entry of that name, or none when there is no such entry. -/
def Finds (listed : List Listed) (name : String) : Option Bytes → Prop
  | some bytes => Entry.listed ⟨relative name, bytes⟩ ∈ listed
  | none => ∀ e ∈ listed, e.name ≠ relative name

/-- The last entry of a name, in the listing of a jar. -/
def lookUp (listed : List Listed) (name : String) : Except JarError (Option Bytes) :=
  match listed.reverse.find? fun e => e.name = relative name with
  | none => return none
  | some e => return some (← fault (← fault e.open))

theorem readEntry_of_list {name : String} {listed : List Listed}
    (whole : list fs path = .ok listed) : readEntry fs path name = lookUp listed name := by
  rw [readEntry, whole]
  rfl

theorem select_cons {e : Listed} {listed : List Listed} {chosen : Option Entry}
    (opened : entry? wanted e = .ok chosen) (found : List Entry) :
    select wanted (e :: listed) = .ok found ↔
      ∃ rest, select wanted listed = .ok rest ∧ chosen.toList ++ rest = found := by
  rw [select, opened, except_bind_eq_ok]
  simp only [Except.ok.injEq, exists_eq_left', except_bind_eq_ok, pure, Except.pure]

/-- The entries that are selected are all that have a wanted name. -/
theorem filter_of_select {listed : List Listed} {found : List Entry}
    (h : select wanted listed = .ok found) :
    listed.filter (fun e => wanted e.name) = found.map Entry.listed := by
  induction listed generalizing found with
  | nil => exact Except.ok.inj h ▸ rfl
  | cons e listed ih =>
    obtain ⟨first, opened, _⟩ := except_bind_eq_ok.mp h
    obtain ⟨rest, selected, rfl⟩ := (select_cons opened found).mp h
    have known := entry?_eq_ok opened
    rw [List.filter_cons, ih selected]
    split_ifs at known ⊢ with named
    · obtain ⟨c, rfl, rfl⟩ := known
      rfl
    · rw [known]
      rfl

theorem carryEntry_listed {replaced : String → Bool} {e : Entry} (file : isDirectoryName e.name = false) :
    carryEntry replaced e.listed = .ok (if replaced e.name then none else some e) := by
  have name : e.listed.name = e.name := rfl
  refine except_bind_eq_ok.mpr ⟨.ok e.bytes, rfl, ?_⟩
  rw [name, file]
  cases replaced e.name with
  | true => rfl
  | false => rfl

theorem carry_listed {replaced : String → Bool} {entries : List Entry}
    (files : ∀ e ∈ entries, isDirectoryName e.name = false) :
    carry replaced (entries.map Entry.listed) = .ok (entries.filter fun e => !replaced e.name) := by
  induction entries with
  | nil => rfl
  | cons e entries ih =>
    obtain ⟨here, others⟩ := List.forall_mem_cons.mp files
    rw [List.map_cons, carry_cons (carryEntry_listed here), ih others, List.filter_cons]
    cases replaced e.name with
    | true => rfl
    | false => rfl

theorem mem_named_ofList_iff {l : List (String × Bytes)}
    (single : ∀ p ∈ l, ∀ q ∈ l, relative p.1 = relative q.1 → p.2 = q.2) (name : String)
    (bytes : Bytes) : (name, bytes) ∈ (named (Dict.ofList l)).entries ↔
      ∃ path, relative path = name ∧ (path, bytes) ∈ l := by
  have own : ∀ p, p ∈ (Dict.ofList l).entries ↔ p ∈ l :=
    Dict.mem_ofList_iff fun p hp q hq same =>
      Prod.ext same (single p hp q hq (congrArg relative same))
  rw [named, Dict.mem_ofList_iff, List.mem_map]
  · constructor
    · rintro ⟨p, member, same⟩
      obtain ⟨rfl, rfl⟩ := Prod.mk.inj same
      exact ⟨p.1, rfl, (own p).mp member⟩
    · rintro ⟨path, rfl, member⟩
      exact ⟨(path, bytes), (own _).mpr member, rfl⟩
  · intro p hp q hq same
    obtain ⟨p, member, rfl⟩ := List.mem_map.mp hp
    obtain ⟨q, member', rfl⟩ := List.mem_map.mp hq
    exact Prod.ext same (single p ((own p).mp member) q ((own q).mp member') same)

/-- The entries that are kept, then the replacements. -/
def repacked (entries : List Entry) (replacements : Dict String Bytes) : List Entry :=
  (entries.filter fun e => !(named replacements).contains e.name) ++
    (named replacements).entries.map fun p => ⟨p.1, p.2⟩

theorem repacked_of_size_eq_zero (entries : List Entry) {replacements : Dict String Bytes}
    (none : replacements.size = 0) : repacked entries replacements = entries := by
  have empty : (named replacements).entries = [] := by
    rw [named, List.eq_nil_of_length_eq_zero none]
    rfl
  rw [repacked, empty, List.map_nil, List.append_nil, List.filter_eq_self]
  intro e _
  rw [Dict.contains, Dict.keys, empty]
  rfl

theorem overwrite_within {p : Place} {replacements : Dict String Bytes}
    (found : fs.locate path = .ok p) (h : overwrite fs path replacements = .ok fs') :
    Files.Within (· = p) fs fs' := by
  rcases overwrite_eq_ok h with ⟨_, rfl⟩ | ⟨_, _, _, _, replaced⟩
  · exact .refl _ _
  · obtain ⟨_, q, found', within, _⟩ := Files.replace_eq_ok replaced
    obtain rfl := Except.ok.inj (found.symm.trans found')
    exact within

theorem overwrite_archive {entries : List Entry} {replacements : Dict String Bytes}
    (closed : fs.read path = .ok (.archive entries))
    (files : ∀ e ∈ entries, isDirectoryName e.name = false)
    (h : overwrite fs path replacements = .ok fs') :
    fs'.read path = .ok (.archive (repacked entries replacements)) := by
  rcases overwrite_eq_ok h with ⟨none, rfl⟩ | ⟨listed, kept, whole, carried, replaced⟩
  · rw [repacked_of_size_eq_zero entries none]
    exact closed
  · obtain ⟨content, read, known⟩ := list_eq_ok.mp whole
    obtain rfl := Except.ok.inj (closed.symm.trans read)
    obtain rfl : entries.map Entry.listed = listed := Except.ok.inj known
    obtain ⟨plain, p, found, within, there⟩ := Files.replace_eq_ok replaced
    obtain rfl := Except.ok.inj ((carry_listed files).symm.trans carried)
    exact Files.read_eq_ok.mpr ⟨p, within.toKeeps.locate plain found, there⟩

end Jar

namespace OutputJar

variable {jar jar' : OutputJar}

/-- Exactly the resources are copied. -/
theorem copyListed_eq_ok {count n : ℕ} {listed : List Listed} :
    jar.copyListed count listed = (jar', .ok n) ↔ ∃ found,
      Jar.select Jar.isResource listed = .ok found ∧ jar' = jar.writeAll (found.map Jar.copied) ∧
        n = count + found.length := by
  induction listed generalizing jar count with
  | nil =>
    rw [copyListed, Jar.select, Prod.mk.injEq, Except.ok.injEq]
    constructor
    · rintro ⟨rfl, rfl⟩
      exact ⟨[], rfl, rfl, rfl⟩
    · rintro ⟨found, same, rfl, rfl⟩
      obtain rfl := Except.ok.inj same
      exact ⟨rfl, rfl⟩
  | cons e listed ih =>
    rw [copyListed]
    cases opened : Jar.entry? Jar.isResource e with
    | error fault =>
      rw [Jar.select, opened]
      exact ⟨fun h => (nomatch (Prod.mk.inj h).2), fun ⟨_, h, _⟩ => (nomatch h)⟩
    | ok chosen =>
      simp only [Jar.select_cons opened]
      cases chosen with
      | none =>
        rw [ih]
        constructor
        · rintro ⟨found, rest, written, count'⟩
          exact ⟨found, ⟨found, rest, rfl⟩, written, count'⟩
        · rintro ⟨_, ⟨found, rest, rfl⟩, written, count'⟩
          exact ⟨found, rest, written, count'⟩
      | some c =>
        rw [ih]
        constructor
        · rintro ⟨found, rest, written, rfl⟩
          refine ⟨c :: found, ⟨found, rest, rfl⟩, written, ?_⟩
          rw [List.length_cons, Nat.add_assoc, Nat.add_comm 1]
        · rintro ⟨_, ⟨found, rest, rfl⟩, written, rfl⟩
          refine ⟨found, rest, written, ?_⟩
          rw [Option.toList_some, List.singleton_append, List.length_cons, Nat.add_assoc,
            Nat.add_comm 1]

theorem copyResources_eq_ok {fs : Files} {input : String} {n : ℕ} {listed : List Listed}
    (whole : Jar.list fs input = .ok listed) : jar.copyResources fs input = (jar', .ok n) ↔
      ∃ found, Jar.select Jar.isResource listed = .ok found ∧
        jar' = jar.writeAll (found.map Jar.copied) ∧ n = found.length := by
  unfold copyResources
  rw [whole]
  dsimp only
  rw [copyListed_eq_ok]
  simp only [Nat.zero_add]

end OutputJar

namespace Remapper

/-- The headers of classes. -/
def headers (classes : List Entry) : Except RemapError (List ClassHeader) :=
  classes.mapM fun c => classError c.name (ClassFile.parseHeader c.bytes)

theorem classError_eq_ok {α : Type} {entry : String} {x : Except ClassError α} {a : α} :
    classError entry x = .ok a ↔ x = .ok a := by
  cases x with
  | error e => exact ⟨nofun, nofun⟩
  | ok b => rw [classError, Except.ok.injEq, Except.ok.injEq]

theorem headers_eq_ok {classes : List Entry} {hs : List ClassHeader} : headers classes = .ok hs ↔
    List.Forall₂ (fun c header => ClassFile.parseHeader c.bytes = .ok header) classes hs := by
  rw [headers, except_mapM_eq_ok]
  simp only [classError_eq_ok]

/-- The classes of a jar, and their headers. -/
structure Registers (listed : List Listed) (classes : List Entry) (hs : List ClassHeader) : Prop where
  inputs : Jar.select isInput listed = .ok classes
  headers : headers classes = .ok hs

theorem registers_iff {listed : List Listed} {classes : List Entry} {hs : List ClassHeader} :
    Registers listed classes hs ↔ Jar.select isInput listed = .ok classes ∧
      List.Forall₂ (fun c header => ClassFile.parseHeader c.bytes = .ok header) classes hs := by
  rw [← headers_eq_ok]
  exact ⟨fun h => ⟨h.inputs, h.headers⟩, fun h => ⟨h.1, h.2⟩⟩

theorem Registers.unique {listed : List Listed} {classes classes' : List Entry}
    {hs hs' : List ClassHeader} (h : Registers listed classes hs)
    (h' : Registers listed classes' hs') : classes = classes' ∧ hs = hs' := by
  obtain rfl := Except.ok.inj (h.inputs.symm.trans h'.inputs)
  exact ⟨rfl, Except.ok.inj (h.headers.symm.trans h'.headers)⟩

/-- Exactly the headers of the classes are added. -/
theorem readListed_eq_ok {h h' : Hierarchy} {found found' : List Entry} {listed : List Listed} :
    readListed h found listed = (h', .ok found') ↔
      ∃ classes hs, Registers listed classes hs ∧ h' = h.add hs ∧ found' = found ++ classes := by
  simp only [registers_iff, and_assoc]
  induction listed generalizing h found with
  | nil =>
    rw [readListed, Jar.select, Prod.mk.injEq, Except.ok.injEq]
    constructor
    · rintro ⟨rfl, rfl⟩
      exact ⟨[], [], rfl, .nil, rfl, (List.append_nil _).symm⟩
    · rintro ⟨classes, hs, same, read, rfl, rfl⟩
      obtain rfl := Except.ok.inj same
      obtain _ | _ := read
      exact ⟨rfl, (List.append_nil _).symm⟩
  | cons e listed ih =>
    rw [readListed]
    cases opened : Jar.entry? isInput e with
    | error fault =>
      rw [Jar.select, opened]
      exact ⟨fun h => (nomatch (Prod.mk.inj h).2), fun ⟨_, _, h, _⟩ => (nomatch h)⟩
    | ok chosen =>
      simp only [Jar.select_cons opened]
      cases chosen with
      | none =>
        dsimp only [RemapError.jar]
        rw [ih]
        constructor
        · rintro ⟨classes, hs, rest, read⟩
          exact ⟨classes, hs, ⟨classes, rest, rfl⟩, read⟩
        · rintro ⟨_, hs, ⟨classes, rest, rfl⟩, read⟩
          exact ⟨classes, hs, rest, read⟩
      | some c =>
        dsimp only [RemapError.jar]
        cases parsed : ClassFile.parseHeader c.bytes with
        | error fault =>
          refine ⟨fun h => (nomatch (Prod.mk.inj h).2), ?_⟩
          rintro ⟨_, hs, ⟨classes, rest, rfl⟩, _ | ⟨first, _⟩, _⟩
          exact nomatch parsed.symm.trans first
        | ok header =>
          dsimp only [classError]
          rw [ih]
          constructor
          · rintro ⟨classes, hs, rest, read, rfl, rfl⟩
            refine ⟨c :: classes, header :: hs, ⟨classes, rest, rfl⟩, .cons parsed read, rfl, ?_⟩
            rw [List.append_assoc, List.singleton_append]
          · rintro ⟨_, _, ⟨classes, rest, rfl⟩, _ | ⟨first, read⟩, rfl, rfl⟩
            obtain rfl := Except.ok.inj (parsed.symm.trans first)
            refine ⟨classes, _, rest, read, rfl, ?_⟩
            rw [List.append_assoc]
            rfl

theorem applyAll_eq_ok {r : Resolver} {jar jar' : OutputJar} {classes : List Entry} :
    applyAll r jar classes = (jar', .ok ()) ↔
      ∃ outs, classes.mapM (remapEntry r) = .ok outs ∧ jar' = jar.writeAll outs := by
  simp only [except_mapM_eq_ok]
  induction classes generalizing jar with
  | nil =>
    constructor
    · intro h
      obtain ⟨rfl, _⟩ := Prod.mk.inj h
      exact ⟨[], .nil, rfl⟩
    · rintro ⟨outs, same, rfl⟩
      obtain _ | _ := same
      rfl
  | cons c classes ih =>
    unfold applyAll
    cases remapped : remapEntry r c with
    | error fault =>
      refine ⟨fun h => absurd (Prod.mk.inj h).2 (by simp), ?_⟩
      rintro ⟨_, _ | ⟨first, _⟩, _⟩
      cases remapped.symm.trans first
    | ok out =>
      dsimp only
      rw [ih]
      constructor
      · rintro ⟨outs, rest, rfl⟩
        exact ⟨out :: outs, .cons remapped rest, rfl⟩
      · rintro ⟨_, _ | ⟨first, rest⟩, rfl⟩
        obtain rfl := Except.ok.inj (remapped.symm.trans first)
        exact ⟨_, rest, rfl⟩

theorem apply_eq_ok {m : Remapper} {tag n : ℕ} {jar jar' : OutputJar} {classes : List Entry}
    (tagged : m.inputs[tag]? = some classes) : m.apply tag jar = (jar', .ok n) ↔
      (∃ outs, classes.mapM (remapEntry m.resolver) = .ok outs ∧ jar' = jar.writeAll outs) ∧
        n = classes.length := by
  have step : m.apply tag jar = ((applyAll m.resolver jar classes).1,
      (applyAll m.resolver jar classes).2.map fun () => classes.length) := by
    rw [apply, tagged]
  rw [step, ← applyAll_eq_ok]
  rcases applyAll m.resolver jar classes with ⟨jar₁, e | u⟩
  · exact ⟨fun h => (nomatch (Prod.mk.inj h).2), fun h => (nomatch (Prod.mk.inj h.1).2)⟩
  · constructor
    · intro h
      obtain ⟨rfl, count⟩ := Prod.mk.inj h
      exact ⟨rfl, (Except.ok.inj count).symm⟩
    · rintro ⟨h, rfl⟩
      obtain ⟨rfl, _⟩ := Prod.mk.inj h
      rfl

end Remapper

end ModRemap
