import Mathlib
import ModRemap.ClassFile.Build
import ModRemap.Proofs.IndexRows
import ModRemap.Proofs.StagedJobs

/-! Headers of mods and of the host, read in any order. What is read of a mod replaces what is known of a
class, what is read of the host does not, and so only the order among mods and among host classes
counts. -/

namespace ModRemap

namespace Hierarchy

/-- Headers of classes that are not known by then. -/
def keep (h : Hierarchy) (headers : List ClassHeader) : Hierarchy :=
  headers.foldl (fun h header => h.insertNew header.name header) h

theorem get?_keep (h : Hierarchy) (headers : List ClassHeader) (name : String) :
    (h.keep headers).get? name =
      (h.get? name).or (headers.find? fun header => header.name = name) := by
  induction headers generalizing h with
  | nil => simp [keep]
  | cons header headers ih =>
    have step : h.keep (header :: headers) = keep (h.insertNew header.name header) headers := rfl
    rw [step, ih, Dict.get?_insertNew, List.find?_cons]
    by_cases same : header.name = name
    · subst same
      cases h.get? header.name <;> simp
    · simp [same, Ne.symm same]

end Hierarchy

namespace Remapper

/-- What is read before any tag is applied. -/
inductive Reading where
  | newTag
  | inputs (tag : ℕ) (fs : Files) (path : String)
  | host (fs : Files) (paths : List String)

/-- The headers of the classes in a jar, in their order. -/
def jarHeaders (fs : Files) (path : String) : Except RemapError (List ClassHeader) := do
  let listed ← RemapError.jar (Jar.list fs path)
  headers (← RemapError.jar (Jar.select isInput listed))

namespace Reading

def isHost : Reading → Bool
  | .host _ _ => true
  | _ => false

/-- The headers that are read of a mod. -/
def mods : Reading → List ClassHeader
  | .inputs _ fs path => (jarHeaders fs path).toOption.getD []
  | _ => []

/-- The headers that are read of the host, as they are in the source namespace. -/
def hosts (ix : MappingIndex) : Reading → List ClassHeader
  | .host fs paths => ((classpathHeaders fs paths).toOption.getD []).map (toSource ix)
  | _ => []

/-- What a reading that succeeds makes of the classes under the tags. -/
def Adds (ins ins' : List (List Entry)) : Reading → Prop
  | .newTag => ins' = ins ++ [[]]
  | .inputs tag fs path => ∃ listed classes, Jar.list fs path = .ok listed ∧
      (∃ hs, Registers listed classes hs) ∧ tag < ins.length ∧
      ins' = ins.modify tag (· ++ classes)
  | .host fs paths => (∃ hs, classpathHeaders fs paths = .ok hs) ∧ ins' = ins

end Reading

/-- The state after a reading that succeeds. -/
def read (m : Remapper) : Reading → Except RemapError Remapper
  | .newTag => .ok m.createTag.2
  | .inputs tag fs path => (m.readInputs tag fs path).2.map fun _ => (m.readInputs tag fs path).1
  | .host fs paths => (m.readClasspath fs paths).map Prod.fst

/-- The state after readings that all succeed. -/
def readAll (m : Remapper) (rs : List Reading) : Except RemapError Remapper := rs.foldlM read m

/-- What readings make of the classes under the tags. -/
def AddsAll : List Reading → (ins ins' : List (List Entry)) → Prop
  | [], ins, ins' => ins' = ins
  | r :: rs, ins, ins' => ∃ mid, r.Adds ins mid ∧ AddsAll rs mid ins'

/-- The hierarchy with the headers of a reading. -/
def taken (ix : MappingIndex) (h : Hierarchy) (r : Reading) : Hierarchy :=
  (h.add r.mods).keep (r.hosts ix)

variable {m m' : Remapper} {ix : MappingIndex} {rs rs' : List Reading}
  {ins ins' : List (List Entry)}

theorem jarHeaders_of_registers {fs : Files} {path : String} {listed : List Listed}
    {classes : List Entry} {hs : List ClassHeader} (whole : Jar.list fs path = .ok listed)
    (registers : Registers listed classes hs) : jarHeaders fs path = .ok hs := by
  simp [jarHeaders, whole, registers.inputs, RemapError.jar, bind, Except.bind, registers.headers]

theorem readClasspath_eq_ok {fs : Files} {paths : List String} {n : ℕ} :
    m.readClasspath fs paths = .ok (m', n) ↔ ∃ hs, classpathHeaders fs paths = .ok hs ∧
      m' = { m with hierarchy := m.hierarchy.keep (hs.map (toSource m.index)) } ∧
        n = hs.length := by
  rw [readClasspath, except_bind_eq_ok]
  constructor
  · rintro ⟨hs, read, same⟩
    obtain ⟨rfl, rfl⟩ := Prod.mk.inj (Except.ok.inj same)
    refine ⟨hs, read, ?_, rfl⟩
    rw [Hierarchy.keep, List.foldl_map]
    rfl
  · rintro ⟨hs, read, rfl, rfl⟩
    refine ⟨hs, read, ?_⟩
    rw [Hierarchy.keep, List.foldl_map]
    rfl

theorem taken_inputs {tag : ℕ} {fs : Files} {path : String} {listed : List Listed}
    {classes : List Entry} {hs : List ClassHeader} (h : Hierarchy)
    (whole : Jar.list fs path = .ok listed) (registers : Registers listed classes hs) :
    taken ix h (.inputs tag fs path) = h.add hs := by
  have headers := jarHeaders_of_registers whole registers
  simp [taken, Reading.mods, Reading.hosts, headers, Except.toOption, Hierarchy.keep]

theorem taken_host {fs : Files} {paths : List String} {hs : List ClassHeader} (h : Hierarchy)
    (whole : classpathHeaders fs paths = .ok hs) :
    taken ix h (.host fs paths) = h.keep (hs.map (toSource ix)) := by
  simp [taken, Reading.mods, Reading.hosts, whole, Except.toOption, Hierarchy.add]

theorem read_inputs_eq_ok {tag : ℕ} {fs : Files} {path : String} :
    m.read (.inputs tag fs path) = .ok m' ↔ ∃ n, m.readInputs tag fs path = (m', .ok n) := by
  cases result : m.readInputs tag fs path with
  | mk next outcome => cases outcome <;> simp [read, result, Except.map]

theorem read_host_eq_ok {fs : Files} {paths : List String} :
    m.read (.host fs paths) = .ok m' ↔ ∃ n, m.readClasspath fs paths = .ok (m', n) := by
  cases result : m.readClasspath fs paths with
  | error fault => simp [read, result, Except.map]
  | ok next => simp [read, result, Except.map, Prod.ext_iff]

theorem read_eq_ok {r : Reading} : m.read r = .ok m' ↔ ∃ ins, r.Adds m.inputs ins ∧
    m' = { m with hierarchy := taken m.index m.hierarchy r, inputs := ins } := by
  cases r with
  | newTag =>
    simp [read, Reading.Adds, createTag, taken, Reading.mods, Reading.hosts, Hierarchy.add,
      Hierarchy.keep, eq_comm]
  | inputs tag fs path =>
    rw [read_inputs_eq_ok]
    constructor
    · rintro ⟨n, done⟩
      obtain ⟨listed, classes, hs, whole, registers, known, -, rfl⟩ := readInputs_eq_ok.mp done
      refine ⟨_, ⟨listed, classes, whole, ⟨hs, registers⟩, known, rfl⟩, ?_⟩
      rw [taken_inputs m.hierarchy whole registers]
    · rintro ⟨ins, ⟨listed, classes, whole, ⟨hs, registers⟩, known, rfl⟩, rfl⟩
      rw [taken_inputs m.hierarchy whole registers]
      exact ⟨_, readInputs_eq_ok.mpr ⟨listed, classes, hs, whole, registers, known, rfl, rfl⟩⟩
  | host fs paths =>
    rw [read_host_eq_ok]
    constructor
    · rintro ⟨n, done⟩
      obtain ⟨hs, whole, same, -⟩ := readClasspath_eq_ok.mp done
      refine ⟨m.inputs, ⟨⟨hs, whole⟩, rfl⟩, ?_⟩
      rw [same, taken_host m.hierarchy whole]
    · rintro ⟨ins, ⟨⟨hs, whole⟩, rfl⟩, rfl⟩
      rw [taken_host m.hierarchy whole]
      exact ⟨_, readClasspath_eq_ok.mpr ⟨hs, whole, rfl, rfl⟩⟩

theorem readAll_eq_ok : m.readAll rs = .ok m' ↔ ∃ ins, AddsAll rs m.inputs ins ∧
    m' = { m with hierarchy := rs.foldl (taken m.index) m.hierarchy, inputs := ins } := by
  induction rs generalizing m with
  | nil => simp [readAll, AddsAll, pure, Except.pure, eq_comm]
  | cons r rs ih =>
    have step : m.readAll (r :: rs) = (m.read r >>= fun next => next.readAll rs) := rfl
    rw [step, except_bind_eq_ok]
    constructor
    · rintro ⟨next, first, rest⟩
      obtain ⟨mid, adds, rfl⟩ := read_eq_ok.mp first
      obtain ⟨ins, others, rfl⟩ := ih.mp rest
      exact ⟨ins, ⟨mid, adds, others⟩, rfl⟩
    · rintro ⟨ins, ⟨mid, adds, others⟩, rfl⟩
      exact ⟨_, read_eq_ok.mpr ⟨mid, adds, rfl⟩, ih.mpr ⟨ins, others, rfl⟩⟩

/-! ### The hierarchy -/

/-- A class has the last header that was read of a mod, or else the first one of the host. -/
def Prefers (h : Hierarchy) (mods hosts : List ClassHeader) : Prop :=
  ∀ name, h.get? name = (mods.reverse.find? fun header => header.name = name).or
    (hosts.find? fun header => header.name = name)

theorem get?_taken (h : Hierarchy) (r : Reading) (name : String) :
    (taken ix h r).get? name = (r.mods.reverse.find? fun header => header.name = name).or
      ((h.get? name).or ((r.hosts ix).find? fun header => header.name = name)) := by
  rw [taken, Hierarchy.get?_keep, Hierarchy.get?_add, Option.or_assoc]

theorem get?_foldl_taken (h : Hierarchy) (rs : List Reading) (name : String) :
    (rs.foldl (taken ix) h).get? name =
      ((rs.flatMap Reading.mods).reverse.find? fun header => header.name = name).or
        ((h.get? name).or ((rs.flatMap (Reading.hosts ix)).find? fun header => header.name = name)) := by
  induction rs generalizing h with
  | nil => simp
  | cons r rs ih =>
    rw [List.foldl_cons, ih, get?_taken, List.flatMap_cons, List.flatMap_cons, List.reverse_append,
      List.find?_append, List.find?_append]
    simp only [Option.or_assoc]

/-! ### The order among mods and among host classes -/

/-- The same readings of mods in the same order, and the same readings of the host in the same order. -/
structure Interleaved (rs rs' : List Reading) : Prop where
  mods : rs.filter (fun r => !r.isHost) = rs'.filter (fun r => !r.isHost)
  hosts : rs.filter Reading.isHost = rs'.filter Reading.isHost

theorem Reading.mods_of_isHost {r : Reading} (host : r.isHost = true) : r.mods = [] := by
  cases r with
  | newTag => rfl
  | inputs tag fs path => simp [isHost] at host
  | host fs paths => rfl

theorem Reading.hosts_of_not_isHost {r : Reading} (other : r.isHost = false) : r.hosts ix = [] := by
  cases r with
  | newTag => rfl
  | inputs tag fs path => rfl
  | host fs paths => simp [isHost] at other

theorem flatMap_filter_of_empty {sort : Reading → Bool} {f : Reading → List ClassHeader}
    (empty : ∀ r, sort r = false → f r = []) (rs : List Reading) :
    (rs.filter sort).flatMap f = rs.flatMap f := by
  induction rs with
  | nil => simp
  | cons r rs ih =>
    cases sorted : sort r with
    | true => simp [sorted, ih]
    | false => simp [sorted, empty r sorted, ih]

theorem mods_filter (rs : List Reading) :
    (rs.filter fun r => !r.isHost).flatMap Reading.mods = rs.flatMap Reading.mods := by
  apply flatMap_filter_of_empty
  intro r host
  exact Reading.mods_of_isHost (by simpa using host)

theorem hosts_filter (ix : MappingIndex) (rs : List Reading) :
    (rs.filter Reading.isHost).flatMap (Reading.hosts ix) = rs.flatMap (Reading.hosts ix) := by
  apply flatMap_filter_of_empty
  intro r other
  exact Reading.hosts_of_not_isHost other

/-- Whether host classes can be read depends on nothing that was read before. -/
theorem Reading.adds_iff_of_isHost {r : Reading} (host : r.isHost = true) :
    r.Adds ins ins' ↔ r.Adds [] [] ∧ ins' = ins := by
  cases r with
  | newTag => simp [isHost] at host
  | inputs tag fs path => simp [isHost] at host
  | host fs paths => simp [Adds]

theorem addsAll_iff : AddsAll rs ins ins' ↔
    AddsAll (rs.filter fun r => !r.isHost) ins ins' ∧
      ∀ r ∈ rs.filter Reading.isHost, r.Adds [] [] := by
  induction rs generalizing ins with
  | nil => simp [AddsAll]
  | cons r rs ih =>
    cases host : r.isHost with
    | true =>
      have others : (r :: rs).filter (fun r => !r.isHost) = rs.filter fun r => !r.isHost := by
        simp [host]
      have first : (r :: rs).filter Reading.isHost = r :: rs.filter Reading.isHost := by simp [host]
      rw [others, first, List.forall_mem_cons, ← and_left_comm, ← ih, AddsAll]
      constructor
      · rintro ⟨mid, adds, rest⟩
        obtain ⟨found, rfl⟩ := (Reading.adds_iff_of_isHost host).mp adds
        exact ⟨found, rest⟩
      · rintro ⟨found, rest⟩
        exact ⟨ins, (Reading.adds_iff_of_isHost host).mpr ⟨found, rfl⟩, rest⟩
    | false =>
      have first : (r :: rs).filter (fun r => !r.isHost) = r :: rs.filter fun r => !r.isHost := by
        simp [host]
      have others : (r :: rs).filter Reading.isHost = rs.filter Reading.isHost := by simp [host]
      rw [first, others, AddsAll, AddsAll, ← exists_and_right]
      apply exists_congr
      intro mid
      rw [ih, and_assoc]

theorem Interleaved.addsAll (same : Interleaved rs rs') (adds : AddsAll rs ins ins') :
    AddsAll rs' ins ins' := by
  rw [addsAll_iff, same.mods, same.hosts] at adds
  exact addsAll_iff.mpr adds

theorem Interleaved.alike (same : Interleaved rs rs') (ix : MappingIndex) (h : Hierarchy) :
    (rs.foldl (taken ix) h).Alike (rs'.foldl (taken ix) h) := by
  intro name
  rw [get?_foldl_taken, get?_foldl_taken, ← mods_filter, ← hosts_filter, same.mods, same.hosts,
    mods_filter, hosts_filter]

theorem applyAll_of_alike {r r' : Resolver} (alike : r.Alike r') (jar : OutputJar)
    (classes : List Entry) : applyAll r jar classes = applyAll r' jar classes := by
  induction classes generalizing jar with
  | nil => rfl
  | cons c classes ih =>
    rw [applyAll, applyAll, alike.remapEntry]
    cases remapEntry r' c with
    | error fault => rfl
    | ok out => exact ih (jar.write out)

theorem apply_of_alike (inputs : m.inputs = m'.inputs) (alike : m.resolver.Alike m'.resolver)
    (tag : ℕ) (jar : OutputJar) : m.apply tag jar = m'.apply tag jar := by
  rw [apply, apply, inputs]
  cases m'.inputs[tag]? with
  | none => rfl
  | some classes => simp only [applyAll_of_alike alike]

/-! ### The two namespaces -/

/-- A header whose names are in the source namespace, in the target namespace. -/
def toTarget (ix : MappingIndex) (h : ClassHeader) : ClassHeader where
  name := Descriptor.renamed ix.mapClass h.name
  superclass := h.superclass.map (Descriptor.renamed ix.mapClass)
  interfaces := h.interfaces.map (Descriptor.renamed ix.mapClass)

variable {t : MappingTable} {s d : ℕ}

/-- A name is a class of the table, or no class has it in the target namespace. -/
def Apart (t : MappingTable) (s d : ℕ) (name : String) : Prop :=
  (∃ c ∈ t.classes, c.name s = name) ∨ ∀ c ∈ t.classes, c.name d ≠ name

instance (name : String) : Decidable (Apart t s d name) := inferInstanceAs (Decidable (_ ∨ _))

theorem unmapClass_mapClass (built : MappingIndex.Built t s d ix) (target : t.Distinct d)
    {name : String} (apart : Apart t s d name) :
    Descriptor.renamed ix.unmapClass (Descriptor.renamed ix.mapClass name) = name := by
  cases mapped : ix.mapClass name with
  | some new =>
    obtain ⟨c, row, rfl, rfl⟩ := built.exists_of_mapClass mapped
    have back := (built.unmapClass_eq_some_iff target).mpr ⟨c, row, rfl, rfl⟩
    simp [Descriptor.renamed, mapped, back]
  | none =>
    have unlisted : ¬∃ c ∈ t.classes, c.name s = name := by
      rintro ⟨c, row, rfl⟩
      exact built.mapClass_ne_none row mapped
    have free : ix.unmapClass name = none := by
      rw [Option.eq_none_iff_forall_ne_some]
      intro old found
      obtain ⟨c, row, same, -⟩ := (built.unmapClass_eq_some_iff target).mp found
      exact apart.resolve_left unlisted c row same
    simp [Descriptor.renamed, mapped, free]

theorem toSource_toTarget (built : MappingIndex.Built t s d ix) (target : t.Distinct d)
    {h : ClassHeader} (apart : ∀ name ∈ h.name :: h.parents, Apart t s d name) :
    toSource ix (toTarget ix h) = h := by
  obtain ⟨name, superclass, interfaces⟩ := h
  have back {other : String} (mentioned : other ∈ name :: (superclass.toList ++ interfaces)) :
      Descriptor.renamed ix.unmapClass (Descriptor.renamed ix.mapClass other) = other :=
    unmapClass_mapClass built target (apart other mentioned)
  have above : (superclass.map (Descriptor.renamed ix.mapClass)).map
      (Descriptor.renamed ix.unmapClass) = superclass := by
    cases superclass with
    | none => rfl
    | some other => exact congrArg some (back (by simp))
  have others : (interfaces.map (Descriptor.renamed ix.mapClass)).map
      (Descriptor.renamed ix.unmapClass) = interfaces := by
    calc _ = interfaces.map (Descriptor.renamed ix.unmapClass ∘ Descriptor.renamed ix.mapClass) :=
          List.map_map
      _ = interfaces.map id := List.map_congr_left fun other inside => back (by simp [inside])
      _ = interfaces := List.map_id interfaces
  exact ClassHeader.mk.injEq .. ▸ ⟨back List.mem_cons_self, above, others⟩

theorem map_toSource_toTarget (built : MappingIndex.Built t s d ix) (target : t.Distinct d)
    {headers : List ClassHeader}
    (apart : ∀ h ∈ headers, ∀ name ∈ h.name :: h.parents, Apart t s d name) :
    (headers.map (toTarget ix)).map (toSource ix) = headers := by
  calc _ = headers.map (toSource ix ∘ toTarget ix) := List.map_map
    _ = headers.map id :=
      List.map_congr_left fun h listed => toSource_toTarget built target (apart h listed)
    _ = headers := List.map_id headers

/-! ### Readings of mods and of the host -/

theorem prefers_of_readAll (run : ({ index := ix } : Remapper).readAll rs = .ok m) :
    Prefers m.hierarchy (rs.flatMap Reading.mods) (rs.flatMap (Reading.hosts ix)) := by
  obtain ⟨ins, -, rfl⟩ := readAll_eq_ok.mp run
  intro name
  have empty : Dict.get? (∅ : Hierarchy) name = none := rfl
  rw [get?_foldl_taken, empty, Option.none_or]

theorem Interleaved.readAll (same : Interleaved rs rs') (run : m.readAll rs = .ok m') :
    ∃ m'', m.readAll rs' = .ok m'' ∧ m''.inputs = m'.inputs ∧ m''.resolver.Alike m'.resolver := by
  obtain ⟨ins, adds, rfl⟩ := readAll_eq_ok.mp run
  have alike := same.alike m.index m.hierarchy
  refine ⟨_, readAll_eq_ok.mpr ⟨ins, same.addsAll adds, rfl⟩, rfl, rfl, ?_⟩
  exact fun name => (alike name).symm

/-- Nothing that is read depends on how the readings of mods and those of the host alternate. Host classes
come out alike whichever of the two namespaces they are known in. -/
theorem readAll_interleaved {source target : String} (hs : t.namespaceId source = .ok s)
    (hd : t.namespaceId target = .ok d) :
    ∃ ix, MappingIndex.build t source target = .ok ix ∧
      (∀ rs m, ({ index := ix } : Remapper).readAll rs = .ok m →
        Prefers m.hierarchy (rs.flatMap Reading.mods) (rs.flatMap (Reading.hosts ix)) ∧
        ∀ rs', Interleaved rs rs' → ∃ m', ({ index := ix } : Remapper).readAll rs' = .ok m' ∧
          (∀ bytes, m'.resolver.remapClass bytes = m.resolver.remapClass bytes) ∧
          ∀ tag jar, m'.apply tag jar = m.apply tag jar) ∧
      (t.Distinct d → ∀ fs paths headers,
        (∀ h ∈ headers, ∀ name ∈ h.name :: h.parents, Apart t s d name) →
        classpathHeaders fs paths = .ok (headers.map (toTarget ix)) →
        (Reading.host fs paths).hosts ix = headers ∧
        ∀ m : Remapper, m.index = ix → m.readClasspath fs paths =
          .ok ({ m with hierarchy := m.hierarchy.keep headers }, headers.length)) := by
  obtain ⟨ix, built, of⟩ := MappingIndex.exists_build hs hd
  refine ⟨ix, built, fun rs m run => ⟨prefers_of_readAll run, fun rs' same => ?_⟩,
    fun distinct fs paths headers apart whole => ?_⟩
  · obtain ⟨m', run', inputs, alike⟩ := same.readAll run
    exact ⟨m', run', alike.remapClass, apply_of_alike inputs alike⟩
  · have back := map_toSource_toTarget of distinct apart
    refine ⟨?_, fun m index => readClasspath_eq_ok.mpr ⟨_, whole, ?_, by simp⟩⟩
    · simp [Reading.hosts, whole, Except.toOption, back]
    · rw [index, back]

/-- A class of the mod that the host has too, and one that only the host has. -/
theorem readAll_interleaved_copy :
    let t : MappingTable := ⟨["a", "b"], [⟨["A", "X"], [], []⟩, ⟨["B", "Y"], [], []⟩]⟩
    let bytes (name superclass : String) : Bytes :=
      ((ClassFile.init name (some superclass)).run ClassFile.blank).2.write
    let fs : Files := { nodes := Dict.ofList [
      (["mod.jar"], .file (.archive [⟨"A.class", bytes "A" "B"⟩])),
      (["host.jar"], .file (.archive [⟨"X.class", bytes "X" "S"⟩, ⟨"Y.class", bytes "Y" "S"⟩]))] }
    let rs : List Reading := [.host fs ["host.jar"], .newTag, .inputs 0 fs "mod.jar"]
    let rs' : List Reading := [.newTag, .inputs 0 fs "mod.jar", .host fs ["host.jar"]]
    let headers : List ClassHeader := [⟨"A", some "S", []⟩, ⟨"B", some "S", []⟩]
    t.namespaceId "a" = .ok 0 ∧ t.namespaceId "b" = .ok 1 ∧ Interleaved rs rs' ∧ t.Distinct 1 ∧
      (∀ h ∈ headers, ∀ name ∈ h.name :: h.parents, Apart t 0 1 name) ∧
      ∃ ix m m', MappingIndex.build t "a" "b" = .ok ix ∧
        ({ index := ix } : Remapper).readAll rs = .ok m ∧
        m.hierarchy.get? "A" = some ⟨"A", some "B", []⟩ ∧
        m.hierarchy.get? "B" = some ⟨"B", some "S", []⟩ ∧
        ({ index := ix } : Remapper).readAll rs' = .ok m' ∧
        (∀ tag jar, m'.apply tag jar = m.apply tag jar) ∧
        (Reading.host fs ["host.jar"]).hosts ix = headers := by
  intro t bytes fs rs rs' headers
  have hs : t.namespaceId "a" = .ok 0 := by decide +kernel
  have hd : t.namespaceId "b" = .ok 1 := by decide +kernel
  have same : Interleaved rs rs' := ⟨rfl, rfl⟩
  have distinct : t.Distinct 1 := by decide +kernel
  have apart : ∀ h ∈ headers, ∀ name ∈ h.name :: h.parents, Apart t 0 1 name := by decide +kernel
  obtain ⟨ix, built, order, translated⟩ := readAll_interleaved hs hd
  let ix' : MappingIndex := ⟨"a", "b", Dict.ofList [("A", ⟨"X", [], []⟩), ("B", ⟨"Y", [], []⟩)],
    Dict.ofList [("X", "A"), ("Y", "B")]⟩
  have index : MappingIndex.build t "a" "b" = .ok ix' := by decide +kernel
  obtain rfl := Except.ok.inj (index.symm.trans built)
  have whole : classpathHeaders fs ["host.jar"] =
      .ok [⟨"X", some "S", []⟩, ⟨"Y", some "S", []⟩] := by decide +kernel
  have accepted : (({ index := ix' } : Remapper).readAll rs).isOk = true := by decide +kernel
  cases run : ({ index := ix' } : Remapper).readAll rs with
  | error fault =>
    rw [run] at accepted
    exact nomatch accepted
  | ok m =>
    obtain ⟨prefers, moved⟩ := order rs m run
    obtain ⟨m', run', -, applied⟩ := moved rs' same
    refine ⟨hs, hd, same, distinct, apart, ix', m, m', built, run, (prefers "A").trans ?_,
      (prefers "B").trans ?_, run', applied, ?_⟩
    · decide +kernel
    · decide +kernel
    · exact (translated distinct fs ["host.jar"] headers apart whole).1

end Remapper

end ModRemap
