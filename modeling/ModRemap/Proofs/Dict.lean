import Mathlib
import ModRemap.Dict

/-! What a dictionary answers after each change. -/

namespace ModRemap.Dict

variable {κ ν ω : Type} [DecidableEq κ]

theorem get?_eq_some_iff (d : Dict κ ν) (k : κ) (v : ν) :
    d.get? k = some v ↔ (k, v) ∈ d.entries := by
  rw [get?, Option.map_eq_some_iff]
  constructor
  · rintro ⟨p, found, rfl⟩
    have key : p.1 = k := by simpa only [decide_eq_true_eq] using List.find?_some found
    exact key ▸ List.mem_of_find?_eq_some found
  · intro member
    have some : (d.entries.find? fun p => p.1 = k).isSome :=
      List.find?_isSome.mpr ⟨(k, v), member, decide_eq_true rfl⟩
    obtain ⟨p, found⟩ := Option.isSome_iff_exists.mp some
    have key : p.1 = k := by simpa only [decide_eq_true_eq] using List.find?_some found
    have same : p = (k, v) :=
      List.inj_on_of_nodup_map d.nodup_keys (List.mem_of_find?_eq_some found) member key
    exact ⟨p, found, congrArg Prod.snd same⟩

theorem contains_iff (d : Dict κ ν) (k : κ) : d.contains k = true ↔ ∃ v, d.get? k = some v := by
  simp only [contains, keys, List.contains_iff_mem, List.mem_map, get?_eq_some_iff, Prod.exists,
    exists_and_right, exists_eq_right]

theorem contains_eq_false_iff {d : Dict κ ν} {k : κ} : d.contains k = false ↔ k ∉ d.keys := by
  rw [contains, ← Bool.not_eq_true, List.contains_iff_mem]

theorem mem_put {k : κ} {v : ν} {l : List (κ × ν)} (nodup : (l.map Prod.fst).Nodup) (p : κ × ν) :
    p ∈ put k v l ↔ p = (k, v) ∨ p.1 ≠ k ∧ p ∈ l := by
  induction l with
  | nil => simp only [put, List.mem_singleton, List.not_mem_nil, and_false, or_false]
  | cons q l ih =>
    obtain ⟨fresh, nodup⟩ := List.nodup_cons.mp nodup
    rw [put]
    split_ifs with key
    · have other : p ∈ l → p.1 ≠ k := fun h e => fresh (key ▸ e ▸ List.mem_map_of_mem h)
      simp only [List.mem_cons]
      grind
    · simp only [List.mem_cons, ih nodup]
      grind

theorem get?_insert (d : Dict κ ν) (k : κ) (v : ν) (k' : κ) :
    (d.insert k v).get? k' = if k' = k then some v else d.get? k' := by
  ext w
  have spec : (d.insert k v).get? k' = some w ↔ (k', w) ∈ put k v d.entries :=
    get?_eq_some_iff (d.insert k v) k' w
  rw [spec, mem_put d.nodup_keys]
  split_ifs with h
  · simp only [h, Prod.mk.injEq, true_and, ne_eq, not_true_eq_false, false_and, or_false,
      Option.some.injEq, eq_comm]
  · simp only [Prod.mk.injEq, h, false_and, ne_eq, not_false_eq_true, true_and, false_or,
      get?_eq_some_iff]

/-- A new key goes to the end. -/
theorem entries_insert_new {d : Dict κ ν} {k : κ} (new : d.contains k = false) (v : ν) :
    (d.insert k v).entries = d.entries ++ [(k, v)] := by
  have put_new {l : List (κ × ν)} (fresh : k ∉ l.map Prod.fst) : put k v l = l ++ [(k, v)] := by
    induction l with
    | nil => rfl
    | cons p rest ih =>
      obtain ⟨other, fresh⟩ := not_or.mp (mt List.mem_cons.mpr fresh)
      rw [put, if_neg (Ne.symm other), ih fresh, List.cons_append]
  exact put_new fun member => ne_true_of_eq_false new (List.contains_iff_mem.mpr member)

theorem eq_of_entries {κ ν : Type} {d d' : Dict κ ν} (same : d.entries = d'.entries) : d = d' := by
  obtain ⟨entries, nodup⟩ := d
  obtain ⟨entries', nodup'⟩ := d'
  obtain rfl := same
  rfl

/-- A dictionary is known by the order of its keys and by what it answers. -/
theorem eq_of_keys {d d' : Dict κ ν} (keys : d.keys = d'.keys) (same : ∀ k, d.get? k = d'.get? k) :
    d = d' := by
  refine eq_of_entries (List.ext_getElem? fun i => ?_)
  have key : (d.entries[i]?).map Prod.fst = (d'.entries[i]?).map Prod.fst := by
    rw [← List.getElem?_map, ← List.getElem?_map]
    exact congrArg (·[i]?) keys
  cases entry : d.entries[i]? with
  | none =>
    rw [entry, Option.map_none] at key
    exact (Option.map_eq_none_iff.mp key.symm).symm
  | some p =>
    rw [entry, Option.map_some] at key
    obtain ⟨q, entry', first⟩ := Option.map_eq_some_iff.mp key.symm
    have here := (get?_eq_some_iff d p.1 p.2).mpr (List.mem_of_getElem? entry)
    have there := (get?_eq_some_iff d' q.1 q.2).mpr (List.mem_of_getElem? entry')
    rw [same, ← first, there] at here
    rw [entry', Prod.ext first (Option.some.inj here)]

theorem entries_ofList {l : List (κ × ν)} (nodup : (l.map Prod.fst).Nodup) : (ofList l).entries = l := by
  induction l using List.reverseRecOn with
  | nil => rfl
  | append_singleton l p ih =>
    rw [List.map_append, List.map_singleton, List.nodup_append] at nodup
    obtain ⟨before, -, apart⟩ := nodup
    have new : (ofList l).contains p.1 = false := by
      rw [contains, keys, ih before, Bool.eq_false_iff, ne_eq, List.contains_iff_mem]
      exact fun member => apart _ member _ List.mem_cons_self rfl
    rw [ofList, List.foldl_append, ← ofList, List.foldl_cons, List.foldl_nil,
      entries_insert_new new, ih before]

theorem ofList_entries (d : Dict κ ν) : ofList d.entries = d :=
  eq_of_entries (entries_ofList d.nodup_keys)

theorem insert_insert (d : Dict κ ν) (k : κ) (v w : ν) : (d.insert k v).insert k w = d.insert k w := by
  have put_put (l : List (κ × ν)) : put k w (put k v l) = put k w l := by
    induction l with
    | nil => simp [put]
    | cons p l ih =>
      rw [put]
      split_ifs with same
      · simp [put, same]
      · rw [put, if_neg same, put, if_neg same, ih]
  exact eq_of_entries (put_put d.entries)

theorem erase_insert_of_new {d : Dict κ ν} {k : κ} (new : d.contains k = false) (v : ν) :
    (d.insert k v).erase k = d := by
  have others : ∀ p ∈ d.entries, p.1 ≠ k := fun p inside same =>
    contains_eq_false_iff.mp new (same ▸ List.mem_map_of_mem inside)
  have kept : d.entries.filter (fun p => p.1 ≠ k) = d.entries :=
    List.filter_eq_self.mpr fun p inside => decide_eq_true (others p inside)
  have filtered : (d.insert k v).entries.filter (fun p => p.1 ≠ k) = d.entries := by
    rw [entries_insert_new new, List.filter_append, kept]
    simp
  exact eq_of_entries filtered

theorem erase_insert_of_ne (d : Dict κ ν) {k k' : κ} (other : k' ≠ k) (v : ν) :
    (d.insert k' v).erase k = (d.erase k).insert k' v := by
  have filter_put (l : List (κ × ν)) :
      (put k' v l).filter (fun p => p.1 ≠ k) = put k' v (l.filter fun p => p.1 ≠ k) := by
    induction l with
    | nil => simp [put, other]
    | cons p l ih =>
      rw [put]
      split_ifs with same
      · simp [same, other, put]
      · by_cases gone : p.1 = k
        · simpa [gone] using ih
        · simpa [gone, same, put] using ih
  exact eq_of_entries (filter_put d.entries)

theorem get?_insertNew (d : Dict κ ν) (k : κ) (v : ν) (k' : κ) :
    (d.insertNew k v).get? k' = if k' = k then some ((d.get? k).getD v) else d.get? k' := by
  rw [insertNew]
  split_ifs with there key key
  · obtain ⟨w, hw⟩ := (contains_iff d k).mp there
    rw [key, hw, Option.getD_some]
  · rfl
  · have absent : d.get? k = none := by
      by_contra h
      exact there ((contains_iff d k).mpr (Option.ne_none_iff_exists'.mp h))
    rw [get?_insert, if_pos key, absent, Option.getD_none]
  · rw [get?_insert, if_neg key]

theorem get?_erase (d : Dict κ ν) (k k' : κ) :
    (d.erase k).get? k' = if k' = k then none else d.get? k' := by
  ext w
  have spec : (d.erase k).get? k' = some w ↔ (k', w) ∈ d.entries.filter fun p => p.1 ≠ k :=
    get?_eq_some_iff (d.erase k) k' w
  rw [spec, List.mem_filter, ← get?_eq_some_iff]
  split_ifs with h
  · simp only [h, ne_eq, not_true_eq_false, decide_false, Bool.false_eq_true, and_false]
  · simp only [ne_eq, h, not_false_eq_true, decide_true, and_true]

/-- The rows of a key, of all rows that a dictionary of lists stands for. -/
theorem filter_rows (d : Dict κ (List ω)) (k : κ) :
    (d.entries.flatMap fun p => p.2.map (p.1, ·)).filter (fun p => p.1 = k) =
      ((d.get? k).getD []).map (k, ·) := by
  have rows {l : List (κ × List ω)} (nodup : (l.map Prod.fst).Nodup) :
      (l.flatMap fun p => p.2.map (p.1, ·)).filter (fun p => p.1 = k) =
        (((l.find? fun p => p.1 = k).map Prod.snd).getD []).map (k, ·) := by
    induction l with
    | nil => rfl
    | cons p rest ih =>
      obtain ⟨fresh, nodup⟩ := List.nodup_cons.mp nodup
      have key : ∀ q ∈ p.2.map (p.1, ·), q.1 = p.1 := by
        intro q member
        obtain ⟨x, -, rfl⟩ := List.mem_map.mp member
        rfl
      rw [List.flatMap_cons, List.filter_append, ih nodup, List.find?_cons]
      by_cases same : p.1 = k
      · have none : rest.find? (fun q => q.1 = k) = none := by
          refine List.find?_eq_none.mpr fun q member equal => fresh ?_
          exact same.trans (of_decide_eq_true equal).symm ▸ List.mem_map_of_mem member
        rw [List.filter_eq_self.mpr fun q member => decide_eq_true ((key q member).trans same), none,
          decide_eq_true same, same]
        exact List.append_nil _
      · rw [List.filter_eq_nil_iff.mpr fun q member equal =>
          same ((key q member).symm.trans (of_decide_eq_true equal)), decide_eq_false same]
        rfl
  exact rows d.nodup_keys

/-- What a list of pairs gives a dictionary comes from the list. -/
theorem mem_of_get?_ofList {l : List (κ × ν)} {k : κ} {v : ν} (h : (ofList l).get? k = some v) :
    (k, v) ∈ l := by
  induction l using List.reverseRecOn with
  | nil => exact nomatch h
  | append_singleton l p ih =>
    rw [ofList, List.foldl_append, List.foldl_cons, List.foldl_nil, ← ofList, get?_insert] at h
    split_ifs at h with key
    · have last : p = (k, v) := Prod.ext key.symm (Option.some.inj h)
      exact last ▸ List.mem_append_right l List.mem_cons_self
    · exact List.mem_append_left [p] (ih h)

theorem exists_get?_ofList {l : List (κ × ν)} {p : κ × ν} (h : p ∈ l) :
    ∃ v, (ofList l).get? p.1 = some v := by
  induction l using List.reverseRecOn with
  | nil => exact nomatch h
  | append_singleton l q ih =>
    rw [ofList, List.foldl_append, List.foldl_cons, List.foldl_nil, ← ofList, get?_insert]
    split_ifs with key
    · exact ⟨q.2, rfl⟩
    · rcases List.mem_append.mp h with before | last
      · exact ih before
      · exact absurd (congrArg Prod.fst (List.mem_singleton.mp last)) key

/-- A list that gives each key one value is the dictionary that it makes. -/
theorem mem_ofList_iff {l : List (κ × ν)} (single : ∀ p ∈ l, ∀ q ∈ l, p.1 = q.1 → p = q)
    (p : κ × ν) : p ∈ (ofList l).entries ↔ p ∈ l := by
  rw [← get?_eq_some_iff]
  constructor
  · exact mem_of_get?_ofList
  · intro member
    obtain ⟨v, found⟩ := exists_get?_ofList member
    rw [found, congrArg Prod.snd (single p member _ (mem_of_get?_ofList found) rfl)]

/-- A key stands where it first came, whatever values it is given. -/
theorem keys_foldl_insert {α : Type} (key : α → κ) (value : Dict κ ν → α → ν) (as : List α) :
    (as.foldl (fun d a => d.insert (key a) (value d a)) (∅ : Dict κ ν)).keys =
      (as.map key).eraseDups := by
  induction as using List.reverseRecOn with
  | nil => rfl
  | append_singleton as a ih =>
    generalize inserted : as.foldl (fun d a => d.insert (key a) (value d a)) (∅ : Dict κ ν) = d at ih
    have known : d.entries.map Prod.fst = (as.map key).eraseDups := ih
    have added : (d.insert (key a) (value d a)).keys = (put (key a) (value d a) d.entries).map Prod.fst := rfl
    rw [List.foldl_append, List.foldl_cons, List.foldl_nil, inserted, added, map_fst_put, known,
      List.map_append, List.eraseDups_append, List.map_singleton]
    by_cases old : key a ∈ as.map key
    · rw [if_pos (List.mem_eraseDups.mpr old), List.removeAll, List.filter_cons_of_neg (by simpa using old)]
      simp
    · rw [if_neg (mt List.mem_eraseDups.mp old), List.removeAll, List.filter_cons_of_pos (by simpa using old)]
      simp [List.eraseDups_cons]

theorem get?_foldl_insert (keys : List κ) (d : Dict κ ν) (k : κ) (v : ν) :
    (keys.foldl (fun d k => d.insert k v) d).get? k = if k ∈ keys then some v else d.get? k := by
  induction keys generalizing d with
  | nil => rfl
  | cons key keys ih =>
    rw [List.foldl_cons, ih, get?_insert]
    by_cases later : k ∈ keys
    · rw [if_pos later, if_pos (List.mem_cons_of_mem _ later)]
    · rw [if_neg later]
      exact if_congr (List.mem_cons.trans (or_iff_left later)).symm rfl rfl

/-- The values in the order of their keys. -/
theorem values_eq_map {d : Dict κ ν} {value : κ → ν} (found : ∀ k ∈ d.keys, d.get? k = some (value k)) :
    d.values = d.keys.map value := by
  rw [values, keys, List.map_map]
  refine List.map_congr_left fun p member => ?_
  have here := (get?_eq_some_iff d p.1 p.2).mpr member
  exact Option.some.inj (here.symm.trans (found p.1 (List.mem_map_of_mem member)))

theorem get?_ofList_map_iff {α : Type} {as : List α} {key : α → κ} {value : α → ν}
    (distinct : (as.map key).Nodup) (k : κ) (v : ν) :
    (ofList (as.map fun a => (key a, value a))).get? k = some v ↔
      ∃ a ∈ as, key a = k ∧ value a = v := by
  have single : ∀ p ∈ as.map fun a => (key a, value a), ∀ q ∈ as.map fun a => (key a, value a),
      p.1 = q.1 → p = q := by
    intro p hp q hq same
    obtain ⟨a, ha, rfl⟩ := List.mem_map.mp hp
    obtain ⟨b, hb, rfl⟩ := List.mem_map.mp hq
    rw [List.inj_on_of_nodup_map distinct ha hb same]
  rw [get?_eq_some_iff, mem_ofList_iff single, List.mem_map]
  simp only [Prod.mk.injEq]

/-- Of several values for a key the last counts. -/
theorem get?_ofList_map {α : Type} (as : List α) (key : α → κ) (value : α → ν) (k : κ) :
    (ofList (as.map fun a => (key a, value a))).get? k =
      (as.reverse.find? fun a => key a = k).map value := by
  induction as using List.reverseRecOn with
  | nil => rfl
  | append_singleton as a ih =>
    rw [List.map_append, ofList, List.foldl_append, ← ofList, List.map_singleton, List.foldl_cons,
      List.foldl_nil, get?_insert, ih, List.reverse_append, List.reverse_singleton,
      List.singleton_append, List.find?_cons]
    by_cases same : key a = k
    · rw [if_pos same.symm, decide_eq_true same]
      rfl
    · rw [if_neg (Ne.symm same), decide_eq_false same]

end ModRemap.Dict
