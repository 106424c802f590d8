/-! Dictionaries that keep the order in which their keys first came. A key that is set again keeps
its place and takes the new value. -/

namespace ModRemap

/-- An association list without repeated keys. -/
structure Dict (κ ν : Type) where
  entries : List (κ × ν)
  nodup_keys : (entries.map Prod.fst).Nodup
deriving DecidableEq, Repr

namespace Dict

variable {κ ν ω : Type}

def empty : Dict κ ν := ⟨[], List.nodup_nil⟩

instance : EmptyCollection (Dict κ ν) := ⟨empty⟩

instance : Inhabited (Dict κ ν) := ⟨empty⟩

def keys (d : Dict κ ν) : List κ := d.entries.map Prod.fst

def values (d : Dict κ ν) : List ν := d.entries.map Prod.snd

def size (d : Dict κ ν) : Nat := d.entries.length

def mapValues (f : κ → ν → ω) (d : Dict κ ν) : Dict κ ω :=
  ⟨d.entries.map fun p => (p.1, f p.1 p.2), by
    simpa only [List.map_map, Function.comp_def] using d.nodup_keys⟩

variable [DecidableEq κ]

def get? (d : Dict κ ν) (k : κ) : Option ν :=
  (d.entries.find? fun p => p.1 = k).map Prod.snd

def contains (d : Dict κ ν) (k : κ) : Bool := d.keys.contains k

/-- Sets the value of `k` in place, or at the end when `k` is new. -/
def put (k : κ) (v : ν) : List (κ × ν) → List (κ × ν)
  | [] => [(k, v)]
  | p :: rest => if p.1 = k then (k, v) :: rest else p :: put k v rest

theorem map_fst_put (k : κ) (v : ν) (l : List (κ × ν)) :
    (put k v l).map Prod.fst =
      if k ∈ l.map Prod.fst then l.map Prod.fst else l.map Prod.fst ++ [k] := by
  induction l with
  | nil => simp [put]
  | cons p rest ih =>
    by_cases h : p.1 = k
    · simp [put, h]
    · have h' : k ≠ p.1 := fun e => h e.symm
      by_cases hk : k ∈ rest.map Prod.fst
      · simp only [put, h, if_false, List.map_cons, ih, hk, if_true, List.mem_cons, h', false_or]
      · simp only [put, h, if_false, List.map_cons, ih, hk, List.mem_cons, h', or_self,
          List.cons_append]

def insert (d : Dict κ ν) (k : κ) (v : ν) : Dict κ ν :=
  ⟨put k v d.entries, by
    rw [map_fst_put]
    split
    · exact d.nodup_keys
    · next h =>
      refine List.nodup_append.mpr ⟨d.nodup_keys, by simp, ?_⟩
      intro a ha b hb e
      exact h (by simpa [List.mem_singleton.mp hb ▸ e] using ha)⟩

/-- Keeps the value of a key that is already there. -/
def insertNew (d : Dict κ ν) (k : κ) (v : ν) : Dict κ ν :=
  if d.contains k then d else d.insert k v

def erase (d : Dict κ ν) (k : κ) : Dict κ ν :=
  ⟨d.entries.filter fun p => p.1 ≠ k, d.nodup_keys.sublist (List.filter_sublist.map _)⟩

/-- The last value given for a key wins, the first place is kept. -/
def ofList (l : List (κ × ν)) : Dict κ ν := l.foldl (fun d p => d.insert p.1 p.2) empty

/-- Replaces the value of `k`, which the function sees as `none` when `k` is new. -/
def update (d : Dict κ ν) (k : κ) (f : Option ν → ν) : Dict κ ν := d.insert k (f (d.get? k))

end Dict

end ModRemap
