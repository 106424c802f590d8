import Mathlib
import ModRemap.Proofs.OutputEntries

/-! The jar that a mod becomes, computed from what its own jar holds. -/

namespace ModRemap

namespace OutputJar

variable {jar jar' : OutputJar}

/-- What is written depends on the entries that are there, and on nothing else of the jar. -/
theorem writeAll_eq (same : jar.entries = jar'.entries) (es : List Entry) :
    jar.writeAll es = { jar with entries := (jar'.writeAll es).entries } := by
  induction es generalizing jar jar' with
  | nil =>
    show jar = { jar with entries := jar'.entries }
    rw [← same]
  | cons e es ih =>
    have one : (jar.write e).entries = (jar'.write e).entries := by
      rw [write, write, same]
      split_ifs
      · exact same
      · rfl
    have rest := ih one
    obtain ⟨entries, collected⟩ := jar.collects_write e
    rw [collected] at rest
    show (jar.write e).writeAll es = _
    rw [collected, rest]
    rfl

theorem mem_of_writeAll {e : Entry} {es : List Entry} (member : e ∈ (jar.writeAll es).entries) :
    e ∈ jar.entries ∨ e ∈ es := by
  induction es generalizing jar with
  | nil => exact .inl member
  | cons e' es ih =>
    rcases ih member with before | later
    · unfold write at before
      split_ifs at before
      · exact .inl before
      · rcases List.mem_append.mp before with old | new
        · exact .inl old
        · exact .inr (List.mem_singleton.mp new ▸ List.mem_cons_self)
    · exact .inr (List.mem_cons_of_mem e' later)

/-- The entries of a new jar once all these are written. -/
def merged (es : List Entry) : List Entry := (writeAll ⟨"", ⟨[], 0⟩, [], []⟩ es).entries

theorem writeAll_of_empty (empty : jar.entries = []) (es : List Entry) :
    jar.writeAll es = { jar with entries := merged es } :=
  writeAll_eq empty es

theorem mem_of_merged {e : Entry} {es : List Entry} (member : e ∈ merged es) : e ∈ es :=
  (mem_of_writeAll member).resolve_left List.not_mem_nil

end OutputJar

namespace Pipeline

section

variable (ix : MappingIndex) (r : Resolver) (m : ModMetadata) (listed : List Listed)

/-- The resources, then the remapped classes. -/
def collect : Except RemapError (List Entry) := do
  let resources ← RemapError.jar (Jar.select Jar.isResource listed)
  let classes ← RemapError.jar (Jar.select Remapper.isInput listed)
  let outs ← classes.mapM (Remapper.remapEntry r)
  return OutputJar.merged (resources.map Jar.copied ++ outs)

/-- The access widener, where one is declared. -/
def widenerIn : Except RemapError (Option (String × Bytes)) :=
  match m.accessWidener with
  | none => return none
  | some path => do
    match ← (Jar.lookUp listed path).mapError RemapError.ofJar with
    | none => throw (.missingEntry path)
    | some bytes =>
      match AccessWidener.remap ix bytes with
      | .ok out => return some (path, out)
      | .error e => throw (.accessWidener path e)

/-- The reference map that a weave configuration names. -/
def declaredRefmapIn (config : String) : Except RemapError (Option String) := do
  match ← (Jar.lookUp listed config).mapError RemapError.ofJar with
  | none => return none
  | some bytes =>
    match (RawJson.parse? bytes).bind RawJson.value? with
    | none => throw (.weaveConfig config)
    | some document => return refmapOf? document

def refmapIn (path : String) : Except RemapError (Option (String × Bytes)) := do
  match ← (Jar.lookUp listed path).mapError RemapError.ofJar with
  | none => return none
  | some bytes =>
    match Refmap.remapBytes? ix bytes with
    | none => throw (.refmap path)
    | some out => return some (path, out)

def refmapsIn : Except RemapError (List (Option (String × Bytes))) := do
  let declared ← (weaveConfigs m).mapM (declaredRefmapIn listed)
  (declared.filterMap id).eraseDups.mapM (refmapIn ix listed)

/-- The entries of the finished jar. -/
def output : Except RemapError (List Entry) := do
  let entries ← collect r listed
  let wide ← widenerIn ix m listed
  let refmaps ← refmapsIn ix m listed
  return Jar.repacked entries (Dict.ofList (refmaps.filterMap id ++ wide.toList))

end

variable {ix : MappingIndex} {r r' : Resolver} {m : ModMetadata} {listed : List Listed}

theorem jar_eq_ok {α : Type} {x : Except JarError α} {a : α} : RemapError.jar x = .ok a ↔ x = .ok a := by
  cases x with
  | error e => exact ⟨nofun, nofun⟩
  | ok b => rw [RemapError.jar, Except.ok.injEq, Except.ok.injEq]

theorem collect_eq_ok {entries : List Entry} : collect r listed = .ok entries ↔
    ∃ found classes outs, Jar.select Jar.isResource listed = .ok found ∧
      Jar.select Remapper.isInput listed = .ok classes ∧
      classes.mapM (Remapper.remapEntry r) = .ok outs ∧
      entries = OutputJar.merged (found.map Jar.copied ++ outs) := by
  constructor
  · intro h
    obtain ⟨found, resources, h⟩ := except_bind_eq_ok.mp h
    obtain ⟨classes, inputs, h⟩ := except_bind_eq_ok.mp h
    obtain ⟨outs, remapped, h⟩ := except_bind_eq_ok.mp h
    exact ⟨found, classes, outs, jar_eq_ok.mp resources, jar_eq_ok.mp inputs, remapped,
      (Except.ok.inj h).symm⟩
  · rintro ⟨found, classes, outs, resources, inputs, remapped, rfl⟩
    exact except_bind_eq_ok.mpr ⟨found, jar_eq_ok.mpr resources,
      except_bind_eq_ok.mpr ⟨classes, jar_eq_ok.mpr inputs, except_bind_eq_ok.mpr ⟨outs, remapped, rfl⟩⟩⟩

theorem output_eq_ok {entries : List Entry} : output ix r m listed = .ok entries ↔
    ∃ gathered wide refmaps, collect r listed = .ok gathered ∧ widenerIn ix m listed = .ok wide ∧
      refmapsIn ix m listed = .ok refmaps ∧
      entries = Jar.repacked gathered (Dict.ofList (refmaps.filterMap id ++ wide.toList)) := by
  constructor
  · intro h
    obtain ⟨gathered, collected, h⟩ := except_bind_eq_ok.mp h
    obtain ⟨wide, widened, h⟩ := except_bind_eq_ok.mp h
    obtain ⟨refmaps, rewritten, h⟩ := except_bind_eq_ok.mp h
    exact ⟨gathered, wide, refmaps, collected, widened, rewritten, (Except.ok.inj h).symm⟩
  · rintro ⟨gathered, wide, refmaps, collected, widened, rewritten, rfl⟩
    exact except_bind_eq_ok.mpr ⟨gathered, collected,
      except_bind_eq_ok.mpr ⟨wide, widened, except_bind_eq_ok.mpr ⟨refmaps, rewritten, rfl⟩⟩⟩

/-- Every entry that is collected is a file. -/
theorem not_directory_of_collect {entries : List Entry} (h : collect r listed = .ok entries) :
    ∀ e ∈ entries, isDirectoryName e.name = false := by
  obtain ⟨found, classes, outs, resources, inputs, remapped, rfl⟩ := collect_eq_ok.mp h
  intro e member
  rcases List.mem_append.mp (OutputJar.mem_of_merged member) with plain | output
  · obtain ⟨c, there, rfl⟩ := List.mem_map.mp plain
    have listed' : c.listed ∈ listed.filter fun e => Jar.isResource e.name := by
      rw [Jar.filter_of_select resources]
      exact List.mem_map_of_mem there
    have resource := (List.mem_filter.mp listed').2
    simp only [Entry.listed, Jar.isResource, Bool.and_eq_true, Bool.not_eq_true'] at resource
    rw [Jar.copied_name]
    exact resource.1.1
  · obtain ⟨c, there, done⟩ := exists_of_mem_right (except_mapM_eq_ok.mp remapped) output
    have listed' : c.listed ∈ listed.filter fun e => Remapper.isInput e.name := by
      rw [Jar.filter_of_select inputs]
      exact List.mem_map_of_mem there
    have named := isInput_iff.mp (List.mem_filter.mp listed').2
    obtain ⟨renamed, _, done⟩ := except_bind_eq_ok.mp done
    obtain rfl := Except.ok.inj done
    refine isDirectoryName_of_class ?_
    -- A class entry is renamed as a whole, or keeps its name.
    dsimp only [Remapper.renamedEntry]
    split_ifs
    · exact named
    · split
      · exact isClass_append _
      · exact named

/-! What the answers say. -/

section

variable (ix : MappingIndex) (m : ModMetadata) (listed : List Listed)

end

/-- Classes that are renamed alike make the same jar. -/
theorem output_eq_of_alike (alike : r.Alike r') : output ix r m listed = output ix r' m listed := by
  have same : Remapper.remapEntry r = Remapper.remapEntry r' := funext alike.remapEntry
  rw [output, output, collect, collect, same]

end Pipeline

end ModRemap
