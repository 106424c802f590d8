import Mathlib
import ModRemap.Proofs.EntryFormats
import ModRemap.Proofs.JarEntries
import ModRemap.Remap.Pipeline

/-! The entries of a finished jar, told from those of the jar that it was made of. -/

namespace ModRemap.Pipeline

section

variable (ix : MappingIndex) (r : Resolver) (m : ModMetadata) (listed : List Listed)

/-- A weave configuration that applies to some environment names this reference map. -/
def NamesRefmap (path : String) : Prop :=
  ∃ env : Environment, ∃ config ∈ m.weaveConfigsFor env, ∃ bytes document,
    Jar.Finds listed config (some bytes) ∧
      (RawJson.parse? bytes).bind RawJson.value? = some document ∧ refmapOf? document = some path

/-- What is made for a declared path. -/
inductive Rewritten : String × Bytes → Prop where
  | widener {path : String} {bytes out : Bytes} (declared : m.accessWidener = some path)
      (found : Jar.Finds listed path (some bytes)) (remapped : AccessWidener.remap ix bytes = .ok out) :
      Rewritten (path, out)
  | refmap {path : String} {bytes out : Bytes} (declared : NamesRefmap m listed path)
      (found : Jar.Finds listed path (some bytes))
      (remapped : Refmap.remapBytes? ix bytes = some out) : Rewritten (path, out)

/-- What takes the place of an entry, or is added: the access widener, and the reference maps at
other names. -/
inductive Replacement : Entry → Prop where
  | widener {path : String} {bytes out : Bytes} (declared : m.accessWidener = some path)
      (found : Jar.Finds listed path (some bytes)) (remapped : AccessWidener.remap ix bytes = .ok out) :
      Replacement ⟨Jar.relative path, out⟩
  | refmap {path : String} {bytes out : Bytes} (declared : NamesRefmap m listed path)
      (found : Jar.Finds listed path (some bytes))
      (remapped : Refmap.remapBytes? ix bytes = some out)
      (other : ∀ wide, m.accessWidener = some wide → Jar.relative wide ≠ Jar.relative path) :
      Replacement ⟨Jar.relative path, out⟩

/-- A class entry, and what it becomes behind the same prefix. -/
def RemappedEntry (e out : Entry) : Prop :=
  ∃ front renamed, r.remapClass e.bytes = .ok renamed ∧
    e.name = front ++ renamed.old ++ ".class" ∧
      out = ⟨front ++ renamed.new ++ ".class", renamed.bytes⟩

/-- An entry of the finished jar. -/
inductive OutputEntry : Entry → Prop where
  | resource {e : Entry} (member : e.listed ∈ listed) (kept : Jar.isResource e.name = true)
      (own : ∀ out, ¬Replacement ix m listed ⟨e.name, out⟩) : OutputEntry (Jar.copied e)
  | remapped {e out : Entry} (member : e.listed ∈ listed) (entry : RemappedEntry r e out) :
      OutputEntry out
  | replacement {e : Entry} (entry : Replacement ix m listed e) : OutputEntry e

/-- A jar with one entry for each name. Class entries have the names of their classes behind some
prefix, and their new names differ. -/
structure Orderly : Prop where
  names : (listed.map Listed.name).Nodup
  classes : ∀ e : Entry, e.listed ∈ listed → Jar.isClass e.name = true →
    ∀ renamed, r.remapClass e.bytes = .ok renamed →
      ∃ front, e.name = front ++ renamed.old ++ ".class"
  distinct : ∀ e e' out out' : Entry, e.listed ∈ listed → e'.listed ∈ listed →
    RemappedEntry r e out → RemappedEntry r e' out' → out.name = out'.name → e = e'

/-- Whatever is declared and present could be rewritten. -/
structure Rewritable : Prop where
  widener : ∀ path, m.accessWidener = some path → ∃ bytes out,
    Jar.Finds listed path (some bytes) ∧ AccessWidener.remap ix bytes = .ok out
  configs : ∀ env : Environment, ∀ config ∈ m.weaveConfigsFor env, Jar.Finds listed config none ∨
    ∃ bytes document, Jar.Finds listed config (some bytes) ∧
      (RawJson.parse? bytes).bind RawJson.value? = some document
  refmaps : ∀ path, NamesRefmap m listed path → Jar.Finds listed path none ∨
    ∃ bytes out, Jar.Finds listed path (some bytes) ∧ Refmap.remapBytes? ix bytes = some out

/-- The jar is finished: it holds each entry that it should once, and no other. Whatever is to be
copied or remapped could be. -/
structure Finished (entries : List Entry) : Prop extends Rewritable ix m listed where
  nodup : (entries.map Entry.name).Nodup
  mem_iff : ∀ e, e ∈ entries ↔ OutputEntry ix r m listed e
  resources : ∀ l ∈ listed, Jar.isResource l.name = true → ∃ e : Entry, l = e.listed
  classes : ∀ l ∈ listed, Jar.isClass l.name = true →
    ∃ e out : Entry, l = e.listed ∧ RemappedEntry r e out

end

variable {ix : MappingIndex} {r : Resolver} {m : ModMetadata} {listed : List Listed}

theorem Orderly.bytes_unique (orderly : Orderly r listed) {e e' : Entry} (member : e.listed ∈ listed)
    (member' : e'.listed ∈ listed) (same : e.name = e'.name) : e = e' :=
  Entry.listed_injective (List.inj_on_of_nodup_map orderly.names member member' same)

theorem Orderly.found_unique (orderly : Orderly r listed) {path path' : String} {bytes bytes' : Bytes}
    (found : Jar.Finds listed path (some bytes)) (found' : Jar.Finds listed path' (some bytes'))
    (same : Jar.relative path = Jar.relative path') : bytes = bytes' :=
  congrArg Entry.bytes (orderly.bytes_unique found found' same)

/-- No bytes are both a reference map and an access widener, so one name is given one entry. -/
theorem Rewritten.unique (orderly : Orderly r listed) {p p' : String × Bytes}
    (h : Rewritten ix m listed p) (h' : Rewritten ix m listed p')
    (same : Jar.relative p.1 = Jar.relative p'.1) : p.2 = p'.2 := by
  cases h with
  | widener declared found remapped =>
    cases h' with
    | widener declared' found' remapped' =>
      obtain rfl := orderly.found_unique found found' same
      exact Except.ok.inj (remapped.symm.trans remapped')
    | refmap declared' found' remapped' =>
      obtain rfl := orderly.found_unique found found' same
      exact absurd remapped (AccessWidener.remap_of_refmap remapped' _)
  | refmap declared found remapped =>
    cases h' with
    | widener declared' found' remapped' =>
      obtain rfl := orderly.found_unique found found' same
      exact absurd remapped' (AccessWidener.remap_of_refmap remapped _)
    | refmap declared' found' remapped' =>
      obtain rfl := orderly.found_unique found found' same
      exact Option.some.inj (remapped.symm.trans remapped')

/-- A declared access widener that can be rewritten stands at no name of a reference map. -/
theorem replacement_iff (orderly : Orderly r listed)
    (wide : ∀ path, m.accessWidener = some path → ∃ bytes out,
      Jar.Finds listed path (some bytes) ∧ AccessWidener.remap ix bytes = .ok out) (e : Entry) :
    Replacement ix m listed e ↔
      ∃ path, Jar.relative path = e.name ∧ Rewritten ix m listed (path, e.bytes) := by
  constructor
  · rintro (⟨declared, found, remapped⟩ | ⟨declared, found, remapped, _⟩)
    · exact ⟨_, rfl, .widener declared found remapped⟩
    · exact ⟨_, rfl, .refmap declared found remapped⟩
  · obtain ⟨name, bytes⟩ := e
    rintro ⟨path, rfl, rewritten⟩
    cases rewritten with
    | widener declared found remapped => exact .widener declared found remapped
    | refmap declared found remapped =>
      refine .refmap declared found remapped fun path' declared' same => ?_
      obtain ⟨bytes', out', found', remapped'⟩ := wide path' declared'
      obtain rfl := orderly.found_unique found' found same
      exact AccessWidener.remap_of_refmap remapped _ remapped'

/-- The class entries that can be read are those of which the header is known. -/
theorem Rewritten.not_class
    (headers : ∀ e : Entry, e.listed ∈ listed → Jar.isClass e.name = true →
      ∃ header, ClassFile.parseHeader e.bytes = .ok header)
    {p : String × Bytes} (h : Rewritten ix m listed p) : Jar.isClass (Jar.relative p.1) = false := by
  by_contra named
  have named := Bool.eq_true_of_not_eq_false named
  cases h with
  | widener declared found remapped =>
    obtain ⟨header, parsed⟩ := headers _ found named
    exact AccessWidener.remap_of_class parsed _ remapped
  | refmap declared found remapped =>
    obtain ⟨header, parsed⟩ := headers _ found named
    exact nomatch (Refmap.remapBytes?_of_class parsed).symm.trans remapped

theorem isClass_append (s : String) : Jar.isClass (s ++ ".class") = true := by
  exact ends_iff.mpr ⟨s.toList, String.toList_append⟩

namespace RemappedEntry

variable {e e' out out' : Entry}

theorem isClass (h : RemappedEntry r e out) :
    Jar.isClass e.name = true ∧ Jar.isClass out.name = true := by
  obtain ⟨front, renamed, _, named, rfl⟩ := h
  rw [named]
  exact ⟨isClass_append _, isClass_append _⟩

theorem unique (h : RemappedEntry r e out) (h' : RemappedEntry r e out') : out = out' := by
  obtain ⟨front, renamed, remapped, named, rfl⟩ := h
  obtain ⟨front', renamed', remapped', named', rfl⟩ := h'
  obtain rfl := Except.ok.inj (remapped.symm.trans remapped')
  obtain rfl : front = front' :=
    (String.append_left_inj _).mp ((String.append_left_inj _).mp (named.symm.trans named'))
  rfl

end RemappedEntry

/-- A class entry that is named after its class is renamed with it. -/
theorem remappedEntry_of_ok {e out : Entry} (h : Remapper.remapEntry r e = .ok out)
    (prefixed : ∀ renamed, r.remapClass e.bytes = .ok renamed →
      ∃ front, e.name = front ++ renamed.old ++ ".class") : RemappedEntry r e out := by
  obtain ⟨renamed, classified, h⟩ := except_bind_eq_ok.mp h
  obtain rfl := Except.ok.inj h
  have remapped : r.remapClass e.bytes = .ok renamed := by
    unfold Remapper.classError at classified
    split at classified
    · rename_i done
      rw [done, Except.ok.inj classified]
    · exact nomatch classified
  obtain ⟨front, named⟩ := prefixed renamed remapped
  refine ⟨front, renamed, remapped, named, ?_⟩
  have cut : Text.dropEnd? (renamed.old ++ ".class").toList e.name.toList = some front.toList := by
    rw [Text.dropEnd?_eq_some_iff, named, String.append_assoc, String.toList_append]
  unfold Remapper.renamedEntry
  split_ifs with same
  · rw [← same, ← named]
  · rw [cut]
    dsimp only
    rw [String.ofList_toList]

theorem nodup_map_of_forall₂ {α β γ : Type} {R : α → β → Prop} {f : β → γ} {as : List α}
    {bs : List β} (h : List.Forall₂ R as bs) (nodup : as.Nodup)
    (single : ∀ a ∈ as, ∀ a' ∈ as, ∀ b b', R a b → R a' b' → f b = f b' → a = a') :
    (bs.map f).Nodup := by
  induction h with
  | nil => exact List.nodup_nil
  | cons first rest ih =>
    rename_i a b as bs
    obtain ⟨fresh, nodup⟩ := List.nodup_cons.mp nodup
    refine List.nodup_cons.mpr ⟨fun member => ?_, ih nodup fun a' ha a'' ha' =>
      single a' (List.mem_cons_of_mem a ha) a'' (List.mem_cons_of_mem a ha')⟩
    obtain ⟨b', there, same⟩ := List.mem_map.mp member
    obtain ⟨a', ha, related⟩ := exists_of_mem_right rest there
    have known := single a' (List.mem_cons_of_mem a ha) a List.mem_cons_self b' b related first same
    exact fresh (known ▸ ha)

/-- What is collected from a jar: its resources, its classes, and what these become. -/
structure Collected (r : Resolver) (listed : List Listed) (found classes outs : List Entry) :
    Prop where
  resources : listed.filter (fun e => Jar.isResource e.name) = found.map Entry.listed
  inputs : listed.filter (fun e => Remapper.isInput e.name) = classes.map Entry.listed
  headers : ∀ c ∈ classes, ∃ header, ClassFile.parseHeader c.bytes = .ok header
  outs : List.Forall₂ (fun c out => Remapper.remapEntry r c = .ok out) classes outs

namespace Collected

variable {found classes outs : List Entry}

theorem mem_found (h : Collected r listed found classes outs) {e : Entry} :
    e ∈ found ↔ e.listed ∈ listed ∧ Jar.isResource e.name = true := by
  rw [← List.mem_map_of_injective Entry.listed_injective, ← h.resources, List.mem_filter]
  rfl

theorem mem_classes (h : Collected r listed found classes outs) {e : Entry} :
    e ∈ classes ↔ e.listed ∈ listed ∧ Jar.isClass e.name = true := by
  rw [← List.mem_map_of_injective Entry.listed_injective, ← h.inputs, List.mem_filter,
    ← isInput_iff]
  rfl

theorem remapped (h : Collected r listed found classes outs) (orderly : Orderly r listed)
    {c out : Entry} (member : c ∈ classes) (done : Remapper.remapEntry r c = .ok out) :
    RemappedEntry r c out := by
  obtain ⟨there, named⟩ := h.mem_classes.mp member
  exact remappedEntry_of_ok done (orderly.classes c there named)

theorem mem_outs (h : Collected r listed found classes outs) (orderly : Orderly r listed)
    {out : Entry} : out ∈ outs ↔ ∃ e : Entry, e.listed ∈ listed ∧ RemappedEntry r e out := by
  constructor
  · intro member
    obtain ⟨c, there, done⟩ := exists_of_mem_right h.outs member
    exact ⟨c, (h.mem_classes.mp there).1, h.remapped orderly there done⟩
  · rintro ⟨e, there, entry⟩
    have member := h.mem_classes.mpr ⟨there, entry.isClass.1⟩
    obtain ⟨out', there', done⟩ := exists_of_mem_left h.outs member
    exact entry.unique (h.remapped orderly member done) ▸ there'

/-- Resources keep their names, and no class takes the name of a resource or of another class. -/
theorem nodup (h : Collected r listed found classes outs) (orderly : Orderly r listed) :
    ((found.map Jar.copied ++ outs).map Entry.name).Nodup := by
  have copied : (found.map Jar.copied).map Entry.name = (found.map Entry.listed).map Listed.name := by
    rw [List.map_map, List.map_map]
    exact List.map_congr_left fun e _ => Jar.copied_name e
  have resources : ((found.map Jar.copied).map Entry.name).Nodup := by
    rw [copied, ← h.resources]
    exact orderly.names.sublist (List.filter_sublist.map _)
  have inputs : classes.Nodup := by
    have names : ((classes.map Entry.listed).map Listed.name).Nodup := by
      rw [← h.inputs]
      exact orderly.names.sublist (List.filter_sublist.map _)
    exact (names.of_map _).of_map _
  have renamed : (outs.map Entry.name).Nodup := by
    refine nodup_map_of_forall₂ h.outs inputs fun a ha a' ha' b b' done done' same => ?_
    exact orderly.distinct a a' b b' (h.mem_classes.mp ha).1 (h.mem_classes.mp ha').1
      (h.remapped orderly ha done) (h.remapped orderly ha' done') same
  rw [List.map_append, List.nodup_append]
  refine ⟨resources, renamed, fun name plain name' output same => ?_⟩
  rw [copied, List.map_map] at plain
  obtain ⟨e, there, rfl⟩ := List.mem_map.mp plain
  obtain ⟨out, there', rfl⟩ := List.mem_map.mp output
  obtain ⟨_, _, entry⟩ := (h.mem_outs orderly).mp there'
  have resource := (h.mem_found.mp there).2
  rw [show e.name = out.name from same, Jar.isResource, entry.isClass.2] at resource
  simp only [Bool.not_true, Bool.and_false, Bool.false_and, Bool.false_eq_true] at resource

end Collected

/-- These pairs are what is made for the declared paths. -/
structure Declarations (ix : MappingIndex) (m : ModMetadata) (listed : List Listed)
    (pairs : List (String × Bytes)) : Prop extends Rewritable ix m listed where
  mem_iff : ∀ p, p ∈ pairs ↔ Rewritten ix m listed p

theorem Declarations.mem_named_iff {pairs : List (String × Bytes)}
    (h : Declarations ix m listed pairs) (orderly : Orderly r listed) (e : Entry) :
    (e.name, e.bytes) ∈ (Jar.named (Dict.ofList pairs)).entries ↔ Replacement ix m listed e := by
  rw [Jar.mem_named_ofList_iff, replacement_iff orderly h.widener]
  · simp only [h.mem_iff]
  · intro p hp q hq
    exact ((h.mem_iff p).mp hp).unique orderly ((h.mem_iff q).mp hq)

theorem Declarations.contains_iff {pairs : List (String × Bytes)}
    (h : Declarations ix m listed pairs) (orderly : Orderly r listed) (name : String) :
    (Jar.named (Dict.ofList pairs)).contains name = true ↔
      ∃ out, Replacement ix m listed ⟨name, out⟩ := by
  rw [Dict.contains_iff]
  simp only [Dict.get?_eq_some_iff, ← h.mem_named_iff orderly]

/-- What is repacked: the collected entries that are not replaced, and the replacements. -/
theorem Declarations.mem_repacked_iff {pairs : List (String × Bytes)}
    (h : Declarations ix m listed pairs) (orderly : Orderly r listed) {entries : List Entry}
    {e : Entry} : e ∈ Jar.repacked entries (Dict.ofList pairs) ↔
      (e ∈ entries ∧ ∀ out, ¬Replacement ix m listed ⟨e.name, out⟩) ∨ Replacement ix m listed e := by
  have replaced : e ∈ (Jar.named (Dict.ofList pairs)).entries.map (fun p => (⟨p.1, p.2⟩ : Entry)) ↔
      Replacement ix m listed e := by
    rw [← h.mem_named_iff orderly, List.mem_map]
    constructor
    · rintro ⟨p, member, rfl⟩
      exact member
    · exact fun member => ⟨_, member, rfl⟩
  have free : ((fun e : Entry => !(Jar.named (Dict.ofList pairs)).contains e.name) e) = true ↔
      ∀ out, ¬Replacement ix m listed ⟨e.name, out⟩ := by
    rw [Bool.not_eq_true', Bool.eq_false_iff, ne_eq, h.contains_iff orderly, not_exists]
  rw [Jar.repacked, List.mem_append, List.mem_filter, replaced, free]

theorem nodup_repacked {entries : List Entry} (nodup : (entries.map Entry.name).Nodup)
    (replacements : Dict String Bytes) :
    ((Jar.repacked entries replacements).map Entry.name).Nodup := by
  unfold Jar.repacked
  rw [List.map_append, List.map_map, List.nodup_append]
  refine ⟨nodup.sublist (List.filter_sublist.map _), (Jar.named replacements).nodup_keys, ?_⟩
  intro name kept name' replaced same
  obtain ⟨e, there, rfl⟩ := List.mem_map.mp kept
  obtain ⟨p, member, rfl⟩ := List.mem_map.mp replaced
  have other := (List.mem_filter.mp there).2
  have key : (Jar.named replacements).contains e.name = true := by
    rw [same, Dict.contains_iff]
    exact ⟨p.2, (Dict.get?_eq_some_iff _ _ _).mpr member⟩
  rw [key] at other
  exact nomatch other

theorem Collected.finished {found classes outs : List Entry} {pairs : List (String × Bytes)}
    (h : Collected r listed found classes outs) (orderly : Orderly r listed)
    (declared : Declarations ix m listed pairs) :
    Finished ix r m listed (Jar.repacked (found.map Jar.copied ++ outs) (Dict.ofList pairs)) where
  nodup := nodup_repacked (h.nodup orderly) (Dict.ofList pairs)
  mem_iff e := by
    rw [declared.mem_repacked_iff orderly, List.mem_append]
    constructor
    · rintro (⟨plain | output, own⟩ | entry)
      · obtain ⟨c, there, rfl⟩ := List.mem_map.mp plain
        obtain ⟨there, resource⟩ := h.mem_found.mp there
        rw [Jar.copied_name] at own
        exact .resource there resource own
      · obtain ⟨c, there, entry⟩ := (h.mem_outs orderly).mp output
        exact .remapped there entry
      · exact .replacement entry
    · rintro (⟨there, resource, own⟩ | ⟨there, entry⟩ | entry)
      · rw [Jar.copied_name]
        exact .inl ⟨.inl (List.mem_map_of_mem (h.mem_found.mpr ⟨there, resource⟩)), own⟩
      · -- No class is replaced: its bytes are neither a reference map nor an access widener.
        refine .inl ⟨.inr ((h.mem_outs orderly).mpr ⟨_, there, entry⟩), fun out replacement => ?_⟩
        obtain ⟨path, same, rewritten⟩ := (replacement_iff orderly declared.widener _).mp replacement
        have other := rewritten.not_class fun c member named =>
          h.headers c (h.mem_classes.mpr ⟨member, named⟩)
        rw [same, entry.isClass.2] at other
        exact nomatch other
      · exact .inr entry
  resources l member resource := by
    have selected : l ∈ listed.filter fun e => Jar.isResource e.name :=
      List.mem_filter.mpr ⟨member, resource⟩
    rw [h.resources] at selected
    obtain ⟨e, _, rfl⟩ := List.mem_map.mp selected
    exact ⟨e, rfl⟩
  classes l member named := by
    have selected : l ∈ listed.filter fun e => Remapper.isInput e.name :=
      List.mem_filter.mpr ⟨member, isInput_iff.mpr named⟩
    rw [h.inputs] at selected
    obtain ⟨c, there, rfl⟩ := List.mem_map.mp selected
    obtain ⟨out, _, done⟩ := exists_of_mem_left h.outs there
    exact ⟨c, out, rfl, h.remapped orderly there done⟩
  toRewritable := declared.toRewritable

end ModRemap.Pipeline
