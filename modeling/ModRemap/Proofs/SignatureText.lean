import Mathlib
import ModRemap.Proofs.Reader
import ModRemap.Proofs.SignatureGrammar

/-! Reading follows the grammar: what is read derives the text that was taken, and reading stops only
where no rule goes on. The bound on the depth of calls is never reached. A signature that can be read
is the text of what was read. -/

namespace ModRemap.Signature

variable {α β : Type}

/-- A step read something that `P` holds of, with the rest, or it stopped at a rest that `Q` holds of. -/
def Judged (P : α → List Char → Prop) (Q : List Char → Prop) :
    Except (List Char) (α × List Char) → Prop
  | .ok (a, rest) => P a rest
  | .error rest => Q rest

theorem Judged.bind {x : Except (List Char) (α × List Char)}
    {k : α × List Char → Except (List Char) (β × List Char)} {P : α → List Char → Prop}
    {P' : β → List Char → Prop} {Q Q' : List Char → Prop} (first : Judged P Q x)
    (stops : ∀ rest, Q rest → Q' rest) (next : ∀ a rest, P a rest → Judged P' Q' (k (a, rest))) :
    Judged P' Q' (x >>= k) := by
  rcases x with rest | ⟨a, rest⟩
  · exact stops rest first
  · exact next a rest first

theorem opens_cons {starts s : List Char} {c : Char} : Opens starts (c :: s) ↔ c ∈ starts := by
  simp only [Opens, List.head?_cons, Option.mem_def, Option.some.injEq, exists_eq_left']

theorem not_opens_nil {starts : List Char} : ¬ Opens starts [] := fun ⟨_, first, _⟩ => nomatch first

theorem isBase_iff {c : Char} : isBase c = true ↔ c ∈ baseLetters := List.contains_iff_mem

theorem judged_readName (stops s : List Char) :
    Judged (fun name rest => s = name ++ rest ∧ name.Disjoint stops ∧ Opens stops rest)
      (fun rest => rest = [] ∧ s.Disjoint stops) (readName stops s) := by
  induction s with
  | nil => exact ⟨rfl, List.disjoint_nil_left stops⟩
  | cons c s ih =>
    unfold readName
    split_ifs with stop
    · exact ⟨rfl, List.disjoint_nil_left stops, opens_cons.mpr (List.contains_iff_mem.mp stop)⟩
    · have other : c ∉ stops := fun listed => stop (List.contains_iff_mem.mpr listed)
      rcases read : readName stops s with rest | ⟨name, rest⟩
      · rw [read] at ih
        exact ⟨ih.1, List.disjoint_cons_left.mpr ⟨other, ih.2⟩⟩
      · rw [read] at ih
        exact ⟨congrArg (c :: ·) ih.1, List.disjoint_cons_left.mpr ⟨other, ih.2.1⟩, ih.2.2⟩

theorem judged_expect (c : Char) (s : List Char) :
    Judged (fun _ rest => s = c :: rest) (fun rest => rest = s ∧ ¬ Opens [c] s) (expect c s) := by
  rcases s with _ | ⟨a, s⟩
  · exact ⟨rfl, not_opens_nil⟩
  · rw [expect]
    split_ifs with same
    · exact congrArg (· :: s) same
    · exact ⟨rfl, fun first => same (List.mem_singleton.mp (opens_cons.mp first))⟩

/-- With `n` calls the three readers follow the grammar. They call each other with one call less, on a
shorter text unless a list of arguments goes on with a type. -/
structure Follows (n : ℕ) : Prop where
  types : ∀ s, 2 * s.length < n → Judged (TypeAt s) (TypeStops s) (readType n s)
  suffixes : ∀ s, 2 * s.length < n → Judged (SuffixAt s) (SuffixStops s) (readSuffix n s)
  arguments : ∀ s, 2 * s.length + 1 < n → Judged (ArgumentsAt s) (ArgumentsStop s) (readArguments n s)

namespace Follows

variable {n : ℕ} {s : List Char}

theorem type (follows : Follows n) (bound : 2 * s.length < n + 1) :
    Judged (TypeAt s) (TypeStops s) (readType (n + 1) s) := by
  rcases s with _ | ⟨c, s⟩
  · exact .atEnd
  rw [List.length_cons] at bound
  unfold readType
  split_ifs with base named parameter array
  · exact .base (isBase_iff.mp base)
  · subst named
    refine (judged_readName _ s).bind ?_ fun name s₁ found => ?_
    · rintro _ ⟨rfl, plain⟩
      exact .name plain
    obtain ⟨split, plain, ended⟩ := found
    have shorter : s₁.length ≤ s.length := by rw [split, List.length_append]; omega
    subst split
    refine (follows.suffixes s₁ (by omega)).bind ?_ fun more rest suffix => ?_
    · exact fun rest stops => .suffix plain stops ended
    · exact .named plain suffix
  · subst parameter
    refine (judged_readName _ s).bind ?_ fun name s₁ found => ?_
    · rintro _ ⟨rfl, plain⟩
      exact .parameter plain
    obtain ⟨split, plain, ended⟩ := found
    subst split
    refine (judged_expect ';' s₁).bind ?_ fun _ rest closed => ?_
    · exact fun _ stops => absurd ended stops.2
    · subst closed
      exact .parameter plain
  · subst array
    refine (follows.types s (by omega)).bind ?_ fun element rest type => ?_
    · exact fun rest stops => .element stops
    · exact .array type
  · refine .start fun listed => ?_
    rcases List.mem_append.mp listed with letter | start
    · exact base (isBase_iff.mpr letter)
    · simp only [boundStarts, List.mem_cons, List.not_mem_nil, or_false] at start
      rcases start with rfl | rfl | rfl <;> contradiction

theorem suffix (follows : Follows n) (bound : 2 * s.length < n + 1) :
    Judged (SuffixAt s) (SuffixStops s) (readSuffix (n + 1) s) := by
  rcases s with _ | ⟨c, s⟩
  · exact .atEnd
  rw [List.length_cons] at bound
  unfold readSuffix
  split_ifs with done list inner
  · subst done
    exact .done
  · subst list
    refine (follows.arguments s (by omega)).bind ?_ fun args s₁ read => ?_
    · exact fun rest stops => .arguments stops
    have shorter := read.length_lt
    refine (follows.suffixes s₁ (by omega)).bind ?_ fun more rest suffix => ?_
    · exact fun rest stops => .behind read stops
    · exact .arguments read suffix
  · subst inner
    refine (judged_readName _ s).bind ?_ fun name s₁ found => ?_
    · rintro _ ⟨rfl, plain⟩
      exact .name plain
    obtain ⟨split, plain, ended⟩ := found
    have shorter : s₁.length ≤ s.length := by rw [split, List.length_append]; omega
    subst split
    refine (follows.suffixes s₁ (by omega)).bind ?_ fun more rest suffix => ?_
    · exact fun rest stops => .inner plain stops ended
    · exact .inner plain suffix
  · refine .start fun listed => ?_
    simp only [nameEnds, List.mem_cons, List.not_mem_nil, or_false] at listed
    rcases listed with rfl | rfl | rfl <;> contradiction

/-- A type with its limit, and the arguments behind it. -/
theorem one (follows : Follows n) (variance : Variance) {t : List Char} (bound : 2 * t.length < n)
    (stops : ∀ rest, TypeStops t rest → ArgumentsStop (variance.render ++ t) rest) :
    Judged (ArgumentsAt (variance.render ++ t)) (ArgumentsStop (variance.render ++ t)) (do
      let (type, s) ← readType n t
      let (more, s) ← readArguments n s
      return (.one variance type more, s)) := by
  refine (follows.types t bound).bind stops fun type s₁ read => ?_
  have shorter := read.length_lt
  refine (follows.arguments s₁ (by omega)).bind ?_ fun more rest others => ?_
  · exact fun rest stops => .behind read stops
  · exact ArgumentsAt.one read others

theorem argumentList (follows : Follows n) (bound : 2 * s.length + 1 < n + 1) :
    Judged (ArgumentsAt s) (ArgumentsStop s) (readArguments (n + 1) s) := by
  rcases s with _ | ⟨c, s⟩
  · exact .atEnd
  rw [List.length_cons] at bound
  unfold readArguments
  split_ifs with done any upper lower
  · subst done
    exact .done
  · subst any
    refine (follows.arguments s (by omega)).bind ?_ fun more rest others => ?_
    · exact fun rest stops => .any stops
    · exact .any others
  · subst upper
    exact follows.one .upper (by omega) fun rest stops => .limit nofun stops
  · subst lower
    exact follows.one .lower (by omega) fun rest stops => .limit nofun stops
  · have whole : 2 * (c :: s).length < n := by
      rw [List.length_cons]
      omega
    refine follows.one .exact whole fun rest stops => .exact (fun listed => ?_) stops
    simp only [List.mem_cons, List.not_mem_nil, or_false] at listed
    rcases listed with rfl | rfl | rfl | rfl <;> contradiction

end Follows

theorem follows (n : ℕ) : Follows n := by
  induction n with
  | zero => exact ⟨fun _ bound => absurd bound (Nat.not_lt_zero _),
      fun _ bound => absurd bound (Nat.not_lt_zero _), fun _ bound => absurd bound (Nat.not_lt_zero _)⟩
  | succ n ih => exact ⟨fun _ bound => ih.type bound, fun _ bound => ih.suffix bound,
      fun _ bound => ih.argumentList bound⟩

theorem judged_readType {n : ℕ} {s : List Char} (bound : 2 * s.length < n) :
    Judged (TypeAt s) (TypeStops s) (readType n s) := (follows n).types s bound

/-- Types one after the other, each behind its lead, which is dropped or empty. -/
theorem judged_readTypesWhile {p : Char → Bool} {drop : Bool} (lead : List Char)
    (leads : ∀ c, p c = true → lead = if drop then [c] else []) (n : ℕ) (s : List Char)
    (bound : 2 * s.length + 1 < n) :
    Judged (fun ts rest => TypesAt lead s ts rest ∧ ∀ c ∈ rest.head?, p c = false)
      (fun rest => ∃ ts s' c, TypesAt lead s ts (lead ++ s') ∧ c ∈ (lead ++ s').head? ∧ p c = true ∧
        TypeStops s' rest) (readTypesWhile p drop n s) := by
  induction n generalizing s with
  | zero => exact absurd bound (Nat.not_lt_zero _)
  | succ n ih =>
    rcases s with _ | ⟨c, s⟩
    · exact ⟨.nil, fun _ first => nomatch first⟩
    rw [List.length_cons] at bound
    rw [readTypesWhile]
    by_cases more : p c = true
    · rw [if_pos more]
      obtain ⟨t, whole, start⟩ : ∃ t, c :: s = lead ++ t ∧ (if drop then s else c :: s) = t := by
        rw [leads c more]
        cases drop
        · exact ⟨c :: s, rfl, rfl⟩
        · exact ⟨s, rfl, rfl⟩
      have within : t.length ≤ s.length + 1 := by
        rw [← List.length_cons, whole, List.length_append]
        omega
      rw [start, whole]
      refine (judged_readType (s := t) (by omega)).bind ?_ fun type s₁ read => ?_
      · exact fun rest stops => ⟨[], t, c, .nil, whole ▸ rfl, more, stops⟩
      have shorter := read.length_lt
      refine (ih s₁ (by omega)).bind ?_ fun types rest others => ?_
      · rintro rest ⟨ts, s', c', others, first, more', stops⟩
        exact ⟨type :: ts, s', c', .cons read others, first, more', stops⟩
      · exact ⟨.cons read others.1, others.2⟩
    · rw [if_neg more]
      refine ⟨.nil, fun c' first => ?_⟩
      obtain rfl := Option.some.inj first
      exact Bool.eq_false_iff.mpr more

/-- What is read behind a colon goes in front of the bounds, or of the place, that come then. -/
theorem judged_readBound {n : ℕ} {s : List Char} (bound : 2 * s.length < n) :
    Judged (fun b s' => s'.length ≤ s.length ∧
        (∀ bs rest, BoundsAt s' bs rest → BoundsAt (':' :: s) (b :: bs) rest) ∧
        ∀ rest, BoundsStop s' rest → BoundsStop (':' :: s) rest)
      (BoundsStop (':' :: s)) (readBound n s) := by
  have absent (bare : ¬ Opens boundStarts s) :
      (∀ bs rest, BoundsAt s bs rest → BoundsAt (':' :: s) (none :: bs) rest) ∧
        ∀ rest, BoundsStop s rest → BoundsStop (':' :: s) rest :=
    ⟨fun _ _ others => .absent bare others, fun _ stops => .absent bare stops⟩
  rcases s with _ | ⟨c, s⟩
  · exact ⟨le_rfl, absent not_opens_nil⟩
  rw [readBound]
  have starts : (c = 'L' || c = 'T' || c = '[') = true ↔ Opens boundStarts (c :: s) := by
    simp only [opens_cons, boundStarts, List.mem_cons, List.not_mem_nil, or_false, Bool.or_eq_true,
      decide_eq_true_eq, or_assoc]
  split_ifs with present
  · have opens := starts.mp present
    refine (judged_readType bound).bind ?_ fun type s' read => ?_
    · exact fun rest stops => .bound opens stops
    · exact ⟨read.length_lt.le, fun _ _ others => .present opens read others,
        fun _ stops => .present opens read stops⟩
  · exact ⟨le_rfl, absent fun opens => present (starts.mpr opens)⟩

theorem judged_readBounds (n : ℕ) (s : List Char) (bound : 2 * s.length < n) :
    Judged (fun bs rest => BoundsAt s bs rest ∧ (Opens [':'] s → bs ≠ [])) (BoundsStop s)
      (readBounds n s) := by
  induction n generalizing s with
  | zero => exact absurd bound (Nat.not_lt_zero _)
  | succ n ih =>
    rcases s with _ | ⟨c, s⟩
    · exact ⟨.done, fun opens => absurd opens not_opens_nil⟩
    rw [List.length_cons] at bound
    unfold readBounds
    split_ifs with colon
    · subst colon
      refine (judged_readBound (by omega)).bind (fun _ stops => stops) ?_
      rintro b s' ⟨shorter, adds, passes⟩
      refine (ih s' (by omega)).bind passes fun bs rest others => ?_
      exact ⟨adds bs rest others.1, fun _ => List.cons_ne_nil b bs⟩
    · exact ⟨.done, fun opens => absurd (List.mem_singleton.mp (opens_cons.mp opens)) colon⟩

theorem judged_readParameters (n : ℕ) (s : List Char) (bound : 2 * s.length + 1 < n) :
    Judged (ParametersAt s) (ParametersStop s) (readParameters n s) := by
  induction n generalizing s with
  | zero => exact absurd bound (Nat.not_lt_zero _)
  | succ n ih =>
    rcases s with _ | ⟨c, s⟩
    · exact .name (List.disjoint_nil_left _) not_opens_nil
    rw [List.length_cons] at bound
    unfold readParameters
    split_ifs with close
    · subst close
      exact .done
    have front {name s₁ : List Char} (split : c :: s = name ++ s₁) : ¬ Opens ['>'] name := by
      rcases name with _ | ⟨c', name⟩
      · exact not_opens_nil
      · rw [← (List.cons.inj split).1, opens_cons, List.mem_singleton]
        exact close
    refine (judged_readName _ (c :: s)).bind ?_ fun name s₁ found => ?_
    · rintro _ ⟨rfl, plain⟩
      exact .name plain (front (List.append_nil _).symm)
    obtain ⟨split, plain, ended⟩ := found
    have within : s₁.length ≤ s.length + 1 := by
      rw [← List.length_cons, split, List.length_append]
      omega
    rw [split]
    refine (judged_readBounds n s₁ (by omega)).bind ?_ fun bs s₂ found => ?_
    · exact fun rest stops => .bounds plain (front split) stops
    obtain ⟨bounds, bounded⟩ := found
    have shorter := bounds.length_lt (bounded ended)
    refine (ih s₂ (by omega)).bind ?_ fun more rest others => ?_
    · exact fun rest stops => .behind plain (front split) bounds (bounded ended) stops
    · exact .cons plain (front split) bounds (bounded ended) others

theorem judged_readParameterList (n : ℕ) (s : List Char) (bound : 2 * s.length < n) :
    Judged (ParameterListAt s) (Stops s) (readParameterList n s) := by
  rcases s with _ | ⟨c, s⟩
  · exact .absent not_opens_nil
  rw [List.length_cons] at bound
  by_cases list : c = '<'
  · subst list
    refine (judged_readParameters n s (by omega)).bind ?_ fun ps rest read => ?_
    · exact fun rest stops => .parameters stops
    · exact .present read
  · have other : readParameterList n (c :: s) = .ok (none, c :: s) := by
      rw [readParameterList]
      exact fun s' same => list (List.cons.inj same).1
    rw [other]
    exact .absent fun opens => list (List.mem_singleton.mp (opens_cons.mp opens))

theorem readBody_types {s : List Char} (types : ¬ Opens ['('] s) (n : ℕ) : readBody n s = (do
    let (all, s) ← readTypesWhile (fun _ => true) false n s
    return (.types all, s)) := by
  rw [readBody]
  rintro s' rfl
  exact types (opens_cons.mpr List.mem_cons_self)

theorem judged_method {n : ℕ} {s : List Char} (bound : 2 * s.length + 1 < n) :
    Judged (fun body rest => BodyAt ('(' :: s) body rest ∧ (rest ≠ [] → BodyStops ('(' :: s) rest))
      (BodyStops ('(' :: s)) (readBody n ('(' :: s)) := by
  refine (judged_readTypesWhile [] (fun _ _ => rfl) n s bound).bind ?_ fun ps s₁ list => ?_
  · rintro rest ⟨ps, s', c, parameters, first, more, stops⟩
    refine .parameter parameters ?_ stops
    rintro ⟨c', first', close⟩
    obtain rfl := Option.some.inj (first.symm.trans first')
    exact of_decide_eq_true more (List.mem_singleton.mp close)
  obtain ⟨parameters, last⟩ := list
  have shorter := parameters.length_le
  refine (judged_expect ')' s₁).bind ?_ fun _ s₂ closed => ?_
  · rintro s₁ ⟨rfl, unclosed⟩
    -- Only at the end of the text the bracket is missing: all else is taken for a type.
    rcases s₁ with _ | ⟨c, s₁⟩
    · exact .parameter parameters not_opens_nil .atEnd
    · have close := of_decide_eq_false (last c rfl)
      exact absurd (opens_cons.mpr (List.mem_singleton.mpr (not_not.mp close))) unclosed
  subst closed
  rw [List.length_cons] at shorter
  refine (judged_readType (by omega)).bind ?_ fun result s₃ type => ?_
  · exact fun rest stops => .result parameters stops
  have shorter' := type.length_lt
  have leads (c : Char) (mark : decide (c = '^') = true) : ['^'] = if true then [c] else [] := by
    rw [of_decide_eq_true mark]
    rfl
  refine (judged_readTypesWhile ['^'] leads n s₃ (by omega)).bind ?_ fun throws rest list => ?_
  · rintro rest ⟨throws, s', _, thrown, _, _, stops⟩
    exact .thrown parameters type thrown stops
  obtain ⟨thrown, end'⟩ := list
  refine ⟨.method parameters type thrown, fun more => ?_⟩
  rcases rest with _ | ⟨c, rest⟩
  · exact absurd rfl more
  · exact .surplus parameters type thrown (of_decide_eq_false (end' c rfl))

/-- Behind a body that is read as far as it goes nothing may follow. -/
theorem judged_readBody (n : ℕ) (s : List Char) (bound : 2 * s.length + 1 < n) :
    Judged (fun body rest => BodyAt s body rest ∧ (rest ≠ [] → BodyStops s rest)) (BodyStops s)
      (readBody n s) := by
  by_cases method : Opens ['('] s
  · obtain ⟨c, first, opens⟩ := method
    obtain ⟨s, rfl⟩ := List.head?_eq_some_iff.mp first
    obtain rfl := List.mem_singleton.mp opens
    rw [List.length_cons] at bound
    exact judged_method (by omega)
  · rw [readBody_types method]
    refine (judged_readTypesWhile [] (fun _ _ => rfl) n s bound).bind ?_ fun ts rest list => ?_
    · rintro rest ⟨ts, s', c, before, first, _, stops⟩
      refine .type method before (fun none => ?_) stops
      rw [none] at first
      exact nomatch first
    obtain ⟨all, last⟩ := list
    refine ⟨.types all, fun more => ?_⟩
    rcases rest with _ | ⟨c, rest⟩
    · exact absurd rfl more
    · exact nomatch last c rfl

theorem read_spec (s : List Char) :
    match read (2 * s.length + 2) s with
    | .ok tree => Derives s tree
    | .error rest => Stops s rest := by
  have front := judged_readParameterList (2 * s.length + 2) s (by omega)
  rw [read]
  rcases first : readParameterList (2 * s.length + 2) s with rest | ⟨ps, s₁⟩
  · rw [first] at front
    exact front
  rw [first] at front
  have shorter := front.length_le
  have back := judged_readBody (2 * s.length + 2) s₁ (by omega)
  rcases second : readBody (2 * s.length + 2) s₁ with rest | ⟨body, rest⟩
  · rw [second] at back
    simp only [bind, Except.bind, second]
    exact .body front back
  rw [second] at back
  simp only [bind, Except.bind, second]
  cases rest with
  | nil => exact .intro front back.1
  | cons c rest => exact .body front (back.2 (List.cons_ne_nil c rest))

/-- The error that tells at which place of the text reading stopped. -/
def stoppedAt (text : String) : List Char → SignatureError
  | [] => .unexpectedEnd text
  | c :: rest => .unexpected text (sizeOf text.toList - sizeOf (c :: rest)) c

theorem parse_eq (text : String) :
    parse text = (read (2 * text.toList.length + 2) text.toList).mapError (stoppedAt text) := by
  rw [parse]
  rcases read (2 * text.toList.length + 2) text.toList with (_ | ⟨c, rest⟩) | tree <;> rfl

theorem derives_of_parse {text : String} {tree : Signature} (parsed : parse text = .ok tree) :
    Derives text.toList tree := by
  have judged := read_spec text.toList
  rw [parse_eq] at parsed
  rcases found : read (2 * text.toList.length + 2) text.toList with rest | tree'
  · exact nomatch found ▸ parsed
  · rw [found] at parsed judged
    exact Except.ok.inj parsed ▸ judged

theorem render_of_parse {text : String} {tree : Signature} (h : parse text = .ok tree) :
    tree.render = text.toList := (derives_of_parse h).eq_render.symm

end ModRemap.Signature
