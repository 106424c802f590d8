import Mathlib
import ModRemap.Proofs.Dict
import ModRemap.Proofs.WrittenJson
import ModRemap.Refmap

/-! A reference map that has been written is read back, so nothing is lost when one is remapped. -/

namespace ModRemap

namespace RawJson

theorem dict?_object {α : Type} {value : RawJson → Option α} (raw : α → RawJson) (d : Dict String α)
    (reads : ∀ p ∈ d.entries, value (raw p.2) = some p.2) :
    dict? value (.object (d.entries.map fun p => (some p.1, raw p.2))) = some d := by
  have members {l : List (String × α)} (reads : ∀ p ∈ l, value (raw p.2) = some p.2) :
      (l.map fun p => (some p.1, raw p.2)).mapM (keyed? value) = some l := by
    induction l with
    | nil => rfl
    | cons p l ih =>
      obtain ⟨first, others⟩ := List.forall_mem_cons.mp reads
      have member : keyed? value (some p.1, raw p.2) = some p := by
        rw [keyed?, first]
        rfl
      rw [List.map_cons, List.mapM_cons, member, ih others]
      rfl
  rw [dict?, members reads, Option.map_some, Dict.ofList_entries]

end RawJson

namespace Refmap

open RawJson

/-- The references of each class, in the order of the document. -/
def rows (m : Refmap) : List (String × List (String × String)) :=
  m.mappings.entries.map fun p => (p.1, p.2.entries)

theorem rows_injective : Function.Injective rows := by
  rintro ⟨d⟩ ⟨d'⟩ same
  have entries : d.entries = d'.entries :=
    List.map_injective_iff.mpr (fun p q h => by
      obtain ⟨key, value⟩ := Prod.mk.inj h
      exact Prod.ext key (Dict.eq_of_entries value)) same
  rw [Dict.eq_of_entries entries]

theorem rows_remap (ix : MappingIndex) (m : Refmap) : (m.remap ix).rows =
    m.rows.map fun c => (c.1, c.2.map fun e => (e.1, ix.mapReference e.2)) := by
  simp only [rows, remap, Dict.mapValues, List.map_map, Function.comp_def]

def rawEntries (d : Dict String String) : RawJson :=
  .object (d.entries.map fun e => (some e.1, .string (some e.2)))

/-- The tree that a reference map is written as. -/
def raw (m : Refmap) : RawJson :=
  .object [(some "mappings", .object (m.mappings.entries.map fun c => (some c.1, rawEntries c.2)))]

theorem ofJson?_raw (m : Refmap) : ofJson? m.raw = some m := by
  have entries (d : Dict String String) : dict? string? (rawEntries d) = some d :=
    dict?_object (fun r => .string (some r)) d fun _ _ => rfl
  have classes := dict?_object rawEntries m.mappings fun c _ => entries c.2
  have fields (t : RawJson) : record? ["mappings"] (.object [(some "mappings", t)]) =
      some [("mappings", t)] := by
    simp [record?, keyed?]
  rw [ofJson?, raw, fields]
  simp only [withDefault?, List.lookup, bind, Option.bind_some, beq_self_eq_true, classes]
  rfl

theorem readsBack_toJson (m : Refmap) : ReadsBack 0 m.toJson m.raw := by
  have entries (d : Dict String String) :
      ReadsBack 2 (.object (d.entries.map entryJson)) (rawEntries d) := by
    refine readsBack_object ?_
    rw [List.forall₂_map_left_iff, List.forall₂_map_right_iff, List.forall₂_same]
    exact fun e _ => ⟨rfl, readsBack_string 3 e.2⟩
  have classes : ReadsBack 1 (.object (m.mappings.entries.map classJson))
      (.object (m.mappings.entries.map fun c => (some c.1, rawEntries c.2))) := by
    refine readsBack_object ?_
    rw [List.forall₂_map_left_iff, List.forall₂_map_right_iff, List.forall₂_same]
    exact fun c _ => ⟨rfl, entries c.2⟩
  exact readsBack_object (.cons ⟨rfl, classes⟩ .nil)

theorem parse?_write (m : Refmap) : parse? m.write = some m := by
  have read := parse?_pretty m.readsBack_toJson
  rw [parse?, write, read, Option.bind_some, ofJson?_raw]

/-- What is written when a document is remapped has its keys in its order and the mapped references, and
depends on nothing else of the document. -/
theorem remapBytes?_rows (ix : MappingIndex) {bytes : Bytes} {m : Refmap}
    (accepted : parse? bytes = some m) :
    ∃ out m', remapBytes? ix bytes = some out ∧ parse? out = some m' ∧ m' = m.remap ix ∧
      m'.rows = m.rows.map (fun c => (c.1, c.2.map fun e => (e.1, ix.mapReference e.2))) ∧
      ∀ other n, parse? other = some n → n.rows = m.rows → remapBytes? ix other = some out := by
  refine ⟨(m.remap ix).write, m.remap ix, ?_, parse?_write _, rfl, rows_remap ix m, ?_⟩
  · rw [remapBytes?, accepted, Option.map_some]
  · intro other n accepted' same
    rw [remapBytes?, accepted', rows_injective same, Option.map_some]

/-- A document in the form of an array, with a key that comes twice, and one with other members. -/
theorem remapBytes?_rows_array :
    let ix : MappingIndex := ⟨"a", "b", Dict.ofList [("A", ⟨"X", [], []⟩)], Dict.ofList [("X", "A")]⟩
    let document := "[\x7b\"A\":\x7b\"k\":\"q\",\"n\":\"\\u0000é\",\"k\":\"A\"\x7d,\"B\":\x7b\x7d\x7d]"
    let other := "\x7b\"v\":[1],\"mappings\":\x7b\"A\":\x7b\"k\":\"A\",\"n\":\"\\u0000\\u00e9\"\x7d,\"B\":\x7b\x7d\x7d\x7d"
    let m : Refmap := ⟨Dict.ofList [("A", Dict.ofList [("k", "A"), ("n", "\x00é")]), ("B", ∅)]⟩
    parse? (bytesOf document) = some m ∧ parse? (bytesOf other) = some m ∧
      ∃ out m', remapBytes? ix (bytesOf document) = some out ∧ parse? out = some m' ∧
        m'.rows = [("A", [("k", "X"), ("n", "\x00é")]), ("B", [])] ∧
        remapBytes? ix (bytesOf other) = some out := by
  intro ix document other m
  have accepted : parse? (bytesOf document) = some m := by decide +kernel
  have accepted' : parse? (bytesOf other) = some m := by decide +kernel
  obtain ⟨out, m', written, read, -, rows, same⟩ := remapBytes?_rows ix accepted
  refine ⟨accepted, accepted', out, m', written, read, rows.trans ?_, same _ m accepted' rfl⟩
  decide +kernel

end Refmap

end ModRemap
