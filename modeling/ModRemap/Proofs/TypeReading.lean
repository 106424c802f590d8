import Mathlib
import ModRemap.Proofs.SignatureText

/-! Types and lists of types are read where the grammar derives them, and reading stops where it
stops. -/

namespace ModRemap.Signature

theorem readName_append {stops name s : List Char} (plain : name.Disjoint stops)
    (ended : Opens stops s) : readName stops (name ++ s) = .ok (name, s) := by
  induction name with
  | nil =>
    obtain ⟨c, first, stop⟩ := ended
    obtain ⟨s, rfl⟩ := List.head?_eq_some_iff.mp first
    rw [List.nil_append, readName, if_pos (List.contains_iff_mem.mpr stop)]
  | cons c name ih =>
    obtain ⟨other, plain⟩ := List.disjoint_cons_left.mp plain
    have pass : ¬ stops.contains c = true := fun stop => other (List.contains_iff_mem.mp stop)
    rw [List.cons_append, readName, if_neg pass, ih plain]

theorem readName_of_disjoint {stops s : List Char} (plain : s.Disjoint stops) :
    readName stops s = .error [] := by
  induction s with
  | nil => rfl
  | cons c s ih =>
    obtain ⟨other, plain⟩ := List.disjoint_cons_left.mp plain
    have pass : ¬ stops.contains c = true := fun stop => other (List.contains_iff_mem.mp stop)
    rw [readName, if_neg pass, ih plain]

theorem readArguments_one (variance : Variance) (n : ℕ) (s : List Char)
    (start : variance = .exact → ∃ c t, s = c :: t ∧ c ∉ ['>', '*', '+', '-']) :
    readArguments (n + 1) (variance.render ++ s) = (do
      let (type, s) ← readType n s
      let (more, s) ← readArguments n s
      return (.one variance type more, s)) := by
  cases variance with
  | upper => rfl
  | lower => rfl
  | exact =>
    obtain ⟨c, t, rfl, other⟩ := start rfl
    simp only [List.mem_cons, List.not_mem_nil, or_false, not_or] at other
    obtain ⟨close, any, upper, lower⟩ := other
    rw [Variance.render, List.nil_append, readArguments, if_neg close, if_neg any, if_neg upper,
      if_neg lower]

theorem SuffixAt.opens {s rest : List Char} {more : TypeSuffix} (suffix : SuffixAt s more rest) :
    Opens nameEnds s := by
  cases suffix with
  | done => exact opens_cons.mpr (by decide)
  | arguments _ _ => exact opens_cons.mpr (by decide)
  | inner _ _ => exact opens_cons.mpr (by decide)

/-- No type begins like something else in a list of arguments. -/
theorem TypeAt.start {s rest : List Char} {t : TypeSignature} (type : TypeAt s t rest) :
    ∃ c u, s = c :: u ∧ c ∈ baseLetters ++ boundStarts := by
  cases type with
  | base letter => exact ⟨_, _, rfl, List.mem_append_left _ letter⟩
  | named _ _ => exact ⟨_, _, rfl, by decide⟩
  | parameter _ => exact ⟨_, _, rfl, by decide⟩
  | array _ => exact ⟨_, _, rfl, by decide⟩

theorem TypeAt.exact {s rest : List Char} {t : TypeSignature} (type : TypeAt s t rest) :
    ∃ c u, s = c :: u ∧ c ∉ ['>', '*', '+', '-'] := by
  obtain ⟨c, u, split, start⟩ := type.start
  have apart : (baseLetters ++ boundStarts).all (· ∉ ['>', '*', '+', '-']) = true := by decide
  exact ⟨c, u, split, of_decide_eq_true (List.all_eq_true.mp apart c start)⟩

/-! ### What is derived -/

mutual

theorem TypeAt.reads {s rest : List Char} {t : TypeSignature} :
    TypeAt s t rest → ∀ n, 2 * s.length < n → readType n s = .ok (t, rest)
  | _, 0, bound => absurd bound (Nat.not_lt_zero _)
  | .base letter, n + 1, _ => by rw [readType, if_pos (isBase_iff.mpr letter)]
  | .named plain suffix, n + 1, bound => by
    rw [List.length_cons, List.length_append] at bound
    have second := suffix.reads n (by omega)
    exact except_bind_eq_ok.mpr ⟨_, readName_append plain suffix.opens,
      except_bind_eq_ok.mpr ⟨_, second, rfl⟩⟩
  | .parameter plain, n + 1, _ =>
    except_bind_eq_ok.mpr ⟨_, readName_append plain (opens_cons.mpr List.mem_cons_self), rfl⟩
  | .array element, n + 1, bound => by
    rw [List.length_cons] at bound
    exact except_bind_eq_ok.mpr ⟨_, element.reads n (by omega), rfl⟩

theorem SuffixAt.reads {s rest : List Char} {more : TypeSuffix} :
    SuffixAt s more rest → ∀ n, 2 * s.length < n → readSuffix n s = .ok (more, rest)
  | _, 0, bound => absurd bound (Nat.not_lt_zero _)
  | .done, n + 1, _ => rfl
  | .arguments list suffix, n + 1, bound => by
    have shorter := list.length_lt
    rw [List.length_cons] at bound
    have first := list.reads n (by omega)
    have second := suffix.reads n (by omega)
    exact except_bind_eq_ok.mpr ⟨_, first, except_bind_eq_ok.mpr ⟨_, second, rfl⟩⟩
  | .inner plain suffix, n + 1, bound => by
    rw [List.length_cons, List.length_append] at bound
    have second := suffix.reads n (by omega)
    exact except_bind_eq_ok.mpr ⟨_, readName_append plain suffix.opens,
      except_bind_eq_ok.mpr ⟨_, second, rfl⟩⟩

theorem ArgumentsAt.reads {s rest : List Char} {args : TypeArguments} :
    ArgumentsAt s args rest → ∀ n, 2 * s.length + 1 < n → readArguments n s = .ok (args, rest)
  | _, 0, bound => absurd bound (Nat.not_lt_zero _)
  | .done, n + 1, _ => rfl
  | .any others, n + 1, bound => by
    rw [List.length_cons] at bound
    exact except_bind_eq_ok.mpr ⟨_, others.reads n (by omega), rfl⟩
  | .one type others, n + 1, bound => by
    have shorter := type.length_lt
    rw [List.length_append] at bound
    have first := type.reads n (by omega)
    have second := others.reads n (by omega)
    rw [readArguments_one _ n _ fun _ => type.exact]
    exact except_bind_eq_ok.mpr ⟨_, first, except_bind_eq_ok.mpr ⟨_, second, rfl⟩⟩

end

/-! ### Where nothing is derived -/

section
variable {α β : Type}

theorem bind_of_error {x : Except (List Char) α} {k : α → Except (List Char) β} {rest : List Char}
    (first : x = .error rest) : (x >>= k) = .error rest := by
  rw [first]
  rfl

theorem bind_of_ok {x : Except (List Char) α} {k : α → Except (List Char) β} {a : α}
    {r : Except (List Char) β} (first : x = .ok a) (second : k a = r) : (x >>= k) = r := by
  rw [first]
  exact second

end

theorem readType_start {c : Char} (other : c ∉ baseLetters ++ boundStarts) (n : ℕ) (s : List Char) :
    readType (n + 1) (c :: s) = .error (c :: s) := by
  obtain ⟨letter, start⟩ := not_or.mp (List.mem_append.not.mp other)
  simp only [boundStarts, List.mem_cons, List.not_mem_nil, or_false, not_or] at start
  obtain ⟨named, parameter, array⟩ := start
  rw [readType, if_neg (isBase_iff.not.mpr letter), if_neg named, if_neg parameter, if_neg array]

theorem readSuffix_start {c : Char} (other : c ∉ nameEnds) (n : ℕ) (s : List Char) :
    readSuffix (n + 1) (c :: s) = .error (c :: s) := by
  simp only [nameEnds, List.mem_cons, List.not_mem_nil, or_false, not_or] at other
  obtain ⟨list, inner, done⟩ := other
  rw [readSuffix, if_neg done, if_neg list, if_neg inner]

mutual

theorem TypeStops.reads {s rest : List Char} :
    TypeStops s rest → ∀ n, 2 * s.length < n → readType n s = .error rest
  | _, 0, bound => absurd bound (Nat.not_lt_zero _)
  | .atEnd, n + 1, _ => rfl
  | .start other, n + 1, _ => readType_start other n _
  | .name plain, n + 1, _ => bind_of_error (readName_of_disjoint plain)
  | .suffix plain stops ended, n + 1, bound => by
    rw [List.length_cons, List.length_append] at bound
    exact bind_of_ok (readName_append plain ended) (bind_of_error (stops.reads n (by omega)))
  | .parameter plain, n + 1, _ => bind_of_error (readName_of_disjoint plain)
  | .element stops, n + 1, bound => by
    rw [List.length_cons] at bound
    exact bind_of_error (stops.reads n (by omega))

theorem SuffixStops.reads {s rest : List Char} :
    SuffixStops s rest → ∀ n, 2 * s.length < n → readSuffix n s = .error rest
  | _, 0, bound => absurd bound (Nat.not_lt_zero _)
  | .atEnd, n + 1, _ => rfl
  | .start other, n + 1, _ => readSuffix_start other n _
  | .arguments stops, n + 1, bound => by
    rw [List.length_cons] at bound
    exact bind_of_error (stops.reads n (by omega))
  | .behind list stops, n + 1, bound => by
    have shorter := list.length_lt
    rw [List.length_cons] at bound
    exact bind_of_ok (list.reads n (by omega)) (bind_of_error (stops.reads n (by omega)))
  | .name plain, n + 1, _ => bind_of_error (readName_of_disjoint plain)
  | .inner plain stops ended, n + 1, bound => by
    rw [List.length_cons, List.length_append] at bound
    exact bind_of_ok (readName_append plain ended) (bind_of_error (stops.reads n (by omega)))

theorem ArgumentsStop.reads {s rest : List Char} :
    ArgumentsStop s rest → ∀ n, 2 * s.length + 1 < n → readArguments n s = .error rest
  | _, 0, bound => absurd bound (Nat.not_lt_zero _)
  | .atEnd, n + 1, _ => rfl
  | .any stops, n + 1, bound => by
    rw [List.length_cons] at bound
    exact bind_of_error (stops.reads n (by omega))
  | .exact (c := c) (s := s) other stops, n + 1, bound => by
    have one := readArguments_one .exact n (c :: s) fun _ => ⟨c, s, rfl, other⟩
    exact one.trans (bind_of_error (stops.reads n (by omega)))
  | .limit limits stops, n + 1, bound => by
    rw [List.length_append] at bound
    rw [readArguments_one _ n _ fun same => absurd same limits]
    exact bind_of_error (stops.reads n (by omega))
  | .behind type stops, n + 1, bound => by
    have shorter := type.length_lt
    rw [List.length_append] at bound
    rw [readArguments_one _ n _ fun _ => type.exact]
    exact bind_of_ok (type.reads n (by omega)) (bind_of_error (stops.reads n (by omega)))

end

/-! ### Lists of types -/

/-- A type behind its lead goes on with the list, and is what is left of the text without the lead. -/
def Leads (p : Char → Bool) (drop : Bool) (lead s : List Char) : Prop :=
  ∃ c u, lead ++ s = c :: u ∧ p c = true ∧ (if drop then u else c :: u) = s

theorem readTypesWhile_leads {p : Char → Bool} {drop : Bool} {lead s : List Char}
    (leads : Leads p drop lead s) (n : ℕ) : readTypesWhile p drop (n + 1) (lead ++ s) = (do
      let (type, s) ← readType n s
      let (types, s) ← readTypesWhile p drop n s
      return (type :: types, s)) := by
  obtain ⟨c, u, split, more, left⟩ := leads
  rw [split, readTypesWhile, if_pos more, left]

theorem readTypesWhile_last {p : Char → Bool} {drop : Bool} {s : List Char}
    (last : ∀ c ∈ s.head?, p c = false) (n : ℕ) :
    readTypesWhile p drop (n + 1) s = .ok ([], s) := by
  cases s with
  | nil => rfl
  | cons c s =>
    have no : ¬ p c = true := fun yes => nomatch yes.symm.trans (last c rfl)
    rw [readTypesWhile, if_neg no]

theorem TypesAt.reads {p : Char → Bool} {drop : Bool} {lead s s' : List Char}
    {ts : List TypeSignature} {r : Except (List Char) (List TypeSignature × List Char)}
    (leads : ∀ s t rest, TypeAt s t rest → Leads p drop lead s) (types : TypesAt lead s ts s')
    (next : ∀ n, 2 * s'.length + 1 < n → readTypesWhile p drop n s' = r) (n : ℕ)
    (bound : 2 * s.length + 1 < n) :
    readTypesWhile p drop n s = r.map fun a => (ts ++ a.1, a.2) := by
  induction types generalizing n with
  | nil =>
    rw [next n bound]
    rcases r with rest | a <;> rfl
  | @cons s s₁ _ t ts type _ ih =>
    obtain ⟨n, rfl⟩ := Nat.exists_eq_add_one.mpr (Nat.zero_lt_of_lt bound)
    have shorter := type.length_lt
    rw [List.length_append] at bound
    rw [readTypesWhile_leads (leads s t s₁ type)]
    refine bind_of_ok (type.reads n (by omega)) ?_
    dsimp only
    rw [ih next n (by omega)]
    rcases r with rest | a <;> rfl

theorem readTypesWhile_stops {p : Char → Bool} {drop : Bool} {lead s rest : List Char}
    (leads : Leads p drop lead s) (stops : TypeStops s rest) (n : ℕ)
    (bound : 2 * s.length + 1 < n) : readTypesWhile p drop n (lead ++ s) = .error rest := by
  obtain ⟨n, rfl⟩ := Nat.exists_eq_add_one.mpr (Nat.zero_lt_of_lt bound)
  rw [readTypesWhile_leads leads]
  exact bind_of_error (stops.reads n (by omega))

/-- What follows the last of the types. -/
theorem TypesAt.reads_last {p : Char → Bool} {drop : Bool} {lead s s' : List Char}
    {ts : List TypeSignature} (leads : ∀ s t rest, TypeAt s t rest → Leads p drop lead s)
    (types : TypesAt lead s ts s') (last : ∀ c ∈ s'.head?, p c = false) (n : ℕ)
    (bound : 2 * s.length + 1 < n) : readTypesWhile p drop n s = .ok (ts, s') := by
  have next (n : ℕ) (bound : 2 * s'.length + 1 < n) :
      readTypesWhile p drop n s' = .ok ([], s') := by
    obtain ⟨n, rfl⟩ := Nat.exists_eq_add_one.mpr (Nat.zero_lt_of_lt bound)
    exact readTypesWhile_last last n
  rw [types.reads leads next n bound, Except.map, List.append_nil]

theorem TypesAt.reads_stops {p : Char → Bool} {drop : Bool} {lead s rest : List Char}
    {ts : List TypeSignature} (s' : List Char)
    (leads : ∀ s t rest, TypeAt s t rest → Leads p drop lead s)
    (types : TypesAt lead s ts (lead ++ s')) (more : Leads p drop lead s')
    (stops : TypeStops s' rest) (n : ℕ) (bound : 2 * s.length + 1 < n) :
    readTypesWhile p drop n s = .error rest :=
  types.reads leads (fun n bound => readTypesWhile_stops more stops n (by
    rw [List.length_append] at bound
    omega)) n bound

end ModRemap.Signature
