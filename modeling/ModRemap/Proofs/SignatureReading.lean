import Mathlib
import ModRemap.Proofs.TypeReading

/-! What the grammar derives is read, and where it stops reading stops: the reader accepts the texts of
the grammar and no others. Of the ways to divide parameters and bounds it takes the one with the most
bounds in front of a name. -/

namespace ModRemap.Signature

/-! ### Type parameters -/

theorem readBound_absent {s : List Char} (bare : ¬ Opens boundStarts s) (n : ℕ) :
    readBound n s = .ok (none, s) := by
  cases s with
  | nil => rfl
  | cons c s =>
    simp only [opens_cons, boundStarts, List.mem_cons, List.not_mem_nil, or_false, not_or] at bare
    rw [readBound, if_neg (by simp only [bare, decide_false, Bool.or_self, Bool.false_eq_true,
      not_false_eq_true])]

theorem readBound_present {s : List Char} (opens : Opens boundStarts s) (n : ℕ) :
    readBound n s = (do
      let (type, s) ← readType n s
      return (some type, s)) := by
  obtain ⟨c, first, start⟩ := opens
  obtain ⟨s, rfl⟩ := List.head?_eq_some_iff.mp first
  simp only [boundStarts, List.mem_cons, List.not_mem_nil, or_false] at start
  rcases start with rfl | rfl | rfl <;> rfl

theorem readBounds_colon (n : ℕ) (s : List Char) : readBounds (n + 1) (':' :: s) = (do
    let (bound, s) ← readBound n s
    let (bounds, s) ← readBounds n s
    return (bound :: bounds, s)) := rfl

theorem readBounds_last {s : List Char} (last : ¬ Opens [':'] s) (n : ℕ) :
    readBounds (n + 1) s = .ok ([], s) := by
  cases s with
  | nil => rfl
  | cons c s =>
    rw [opens_cons, List.mem_singleton] at last
    rw [readBounds, if_neg last]

theorem BoundsAt.reads {s s' : List Char} {bs : List (Option TypeSignature)}
    {r : Except (List Char) (List (Option TypeSignature) × List Char)} (bounds : BoundsAt s bs s')
    (next : ∀ n, 2 * s'.length < n → readBounds n s' = r) (n : ℕ) (bound : 2 * s.length < n) :
    readBounds n s = r.map fun a => (bs ++ a.1, a.2) := by
  induction bounds generalizing n with
  | done =>
    rw [next n bound]
    rcases r with rest | a <;> rfl
  | absent bare _ ih =>
    obtain ⟨n, rfl⟩ := Nat.exists_eq_add_one.mpr (Nat.zero_lt_of_lt bound)
    rw [List.length_cons] at bound
    rw [readBounds_colon]
    refine bind_of_ok (readBound_absent bare n) ?_
    dsimp only
    rw [ih next n (by omega)]
    rcases r with rest | a <;> rfl
  | present opens type _ ih =>
    obtain ⟨n, rfl⟩ := Nat.exists_eq_add_one.mpr (Nat.zero_lt_of_lt bound)
    have shorter := type.length_lt
    rw [List.length_cons] at bound
    rw [readBounds_colon, readBound_present opens, type.reads n (by omega)]
    refine bind_of_ok rfl ?_
    dsimp only
    rw [ih next n (by omega)]
    rcases r with rest | a <;> rfl

theorem BoundsStop.reads {s rest : List Char} (stops : BoundsStop s rest) (n : ℕ)
    (bound : 2 * s.length < n) : readBounds n s = .error rest := by
  induction stops generalizing n with
  | bound opens stops =>
    obtain ⟨n, rfl⟩ := Nat.exists_eq_add_one.mpr (Nat.zero_lt_of_lt bound)
    rw [List.length_cons] at bound
    rw [readBounds_colon, readBound_present opens, stops.reads n (by omega)]
    rfl
  | absent bare _ ih =>
    obtain ⟨n, rfl⟩ := Nat.exists_eq_add_one.mpr (Nat.zero_lt_of_lt bound)
    rw [List.length_cons] at bound
    rw [readBounds_colon]
    exact bind_of_ok (readBound_absent bare n) (bind_of_error (ih n (by omega)))
  | present opens type _ ih =>
    obtain ⟨n, rfl⟩ := Nat.exists_eq_add_one.mpr (Nat.zero_lt_of_lt bound)
    have shorter := type.length_lt
    rw [List.length_cons] at bound
    rw [readBounds_colon, readBound_present opens, type.reads n (by omega)]
    exact bind_of_ok rfl (bind_of_error (ih n (by omega)))

theorem BoundsAt.opens {s rest : List Char} {bs : List (Option TypeSignature)}
    (bounds : BoundsAt s bs rest) (bounded : bs ≠ []) : Opens [':'] s := by
  cases bounds with
  | done => exact absurd rfl bounded
  | absent _ _ => exact opens_cons.mpr List.mem_cons_self
  | present _ _ _ => exact opens_cons.mpr List.mem_cons_self

theorem BoundsStop.opens {s rest : List Char} (stops : BoundsStop s rest) : Opens [':'] s := by
  cases stops <;> exact opens_cons.mpr List.mem_cons_self

/-- The bounds in front that no name divides from what is before them, and the other parameters. -/
def leading : List TypeParameter → List (Option TypeSignature) × List TypeParameter
  | [] => ([], [])
  | p :: ps =>
    if p.name = [] then (p.bounds ++ (leading ps).1, (leading ps).2)
    else ([], ⟨p.name, p.bounds ++ (leading ps).1⟩ :: (leading ps).2)

/-- The same parameters, a name being empty only in the first of them. -/
def joined : List TypeParameter → List TypeParameter
  | [] => []
  | p :: ps => ⟨p.name, p.bounds ++ (leading ps).1⟩ :: (leading ps).2

theorem readParameters_name {name s : List Char} (plain : name.Disjoint [':'])
    (more : ¬ Opens ['>'] name) (colon : Opens [':'] s) (n : ℕ) :
    readParameters (n + 1) (name ++ s) = (do
      let (bounds, s) ← readBounds n s
      let (ps, s) ← readParameters n s
      return (⟨name, bounds⟩ :: ps, s)) := by
  have first : ∃ c u, name ++ s = c :: u ∧ c ≠ '>' := by
    rcases name with _ | ⟨c, name⟩
    · obtain ⟨c, first, colon⟩ := colon
      obtain ⟨s, rfl⟩ := List.head?_eq_some_iff.mp first
      refine ⟨c, s, rfl, ?_⟩
      rw [List.mem_singleton.mp colon]
      decide
    · exact ⟨c, name ++ s, rfl, fun close => more (opens_cons.mpr (List.mem_singleton.mpr close))⟩
  obtain ⟨c, u, split, other⟩ := first
  rw [split, readParameters, if_neg other, ← split, readName_append plain colon]
  rfl

/-- Where the text goes on with a name there are no bounds. -/
theorem not_opens_colon {name s : List Char} (plain : name.Disjoint [':']) (named : name ≠ []) :
    ¬ Opens [':'] (name ++ s) := by
  obtain ⟨c, name, rfl⟩ := List.exists_cons_of_ne_nil named
  rw [List.cons_append, opens_cons]
  exact fun colon => plain List.mem_cons_self colon

/-- `mid` is where the bounds at the beginning of `s` end. -/
structure Divides (s : List Char) (bs : List (Option TypeSignature)) (mid : List Char) : Prop where
  shorter : mid.length ≤ s.length
  reads : ∀ n, 2 * s.length < n → readBounds n s = .ok (bs, mid)

theorem divides_of_not_opens {s : List Char} (last : ¬ Opens [':'] s) : Divides s [] s where
  shorter := le_rfl
  reads n bound := by
    obtain ⟨n, rfl⟩ := Nat.exists_eq_add_one.mpr (Nat.zero_lt_of_lt bound)
    exact readBounds_last last n

theorem Divides.bounds {s s' mid : List Char} {bs bs' : List (Option TypeSignature)}
    (bounds : BoundsAt s bs s') (next : Divides s' bs' mid) : Divides s (bs ++ bs') mid where
  shorter := next.shorter.trans bounds.length_le
  reads := bounds.reads next.reads

/-- A name with its bounds, as far as the colons go, and the parameters behind it. -/
theorem Divides.reads_name {name s mid : List Char} {bs : List (Option TypeSignature)}
    {r : Except (List Char) (List TypeParameter × List Char)} (divides : Divides s bs mid)
    (plain : name.Disjoint [':']) (more : ¬ Opens ['>'] name) (colon : Opens [':'] s)
    (behind : mid.length < s.length)
    (next : ∀ n, 2 * mid.length + 1 < n → readParameters n mid = r) (n : ℕ)
    (bound : 2 * (name ++ s).length + 1 < n) :
    readParameters n (name ++ s) = r.map fun a => (⟨name, bs⟩ :: a.1, a.2) := by
  obtain ⟨n, rfl⟩ := Nat.exists_eq_add_one.mpr (Nat.zero_lt_of_lt bound)
  rw [List.length_append] at bound
  rw [readParameters_name plain more colon]
  refine bind_of_ok (divides.reads n (by omega)) ?_
  dsimp only
  rw [next n (by omega)]
  rcases r with rest | a <;> rfl

theorem ParametersAt.reads {s rest : List Char} {ps : List TypeParameter}
    (parameters : ParametersAt s ps rest) :
    (∃ mid, Divides s (leading ps).1 mid ∧
      ∀ n, 2 * mid.length + 1 < n → readParameters n mid = .ok ((leading ps).2, rest)) ∧
    ∀ n, 2 * s.length + 1 < n → readParameters n s = .ok (joined ps, rest) := by
  induction parameters with
  | @done s =>
    have closed (n : ℕ) (bound : 2 * ('>' :: s).length + 1 < n) :
        readParameters n ('>' :: s) = .ok ([], s) := by
      obtain ⟨n, rfl⟩ := Nat.exists_eq_add_one.mpr (Nat.zero_lt_of_lt bound)
      rfl
    exact ⟨⟨'>' :: s, divides_of_not_opens (by rw [opens_cons]; decide), closed⟩, closed⟩
  | @cons name s s' rest bs ps plain more bounds bounded others ih =>
    obtain ⟨⟨mid, divides, next⟩, -⟩ := ih
    have own := divides.bounds bounds
    have behind := divides.shorter.trans_lt (bounds.length_lt bounded)
    have whole := own.reads_name plain more (bounds.opens bounded) behind next
    refine ⟨?_, whole⟩
    rw [leading]
    dsimp only
    split_ifs with unnamed
    · subst unnamed
      exact ⟨mid, own, next⟩
    · exact ⟨name ++ s, divides_of_not_opens (not_opens_colon plain unnamed), whole⟩

/-- The reader stops in front of `rest`, also where bounds may go on before the parameters. -/
structure Halts (s rest : List Char) : Prop where
  bounds : (∀ n, 2 * s.length < n → readBounds n s = .error rest) ∨ ∃ bs mid, Divides s bs mid ∧
    ∀ n, 2 * mid.length + 1 < n → readParameters n mid = .error rest
  parameters : ∀ n, 2 * s.length + 1 < n → readParameters n s = .error rest

theorem halts_of_disjoint {name : List Char} (plain : name.Disjoint [':'])
    (more : ¬ Opens ['>'] name) : Halts name [] := by
  have ends (n : ℕ) (bound : 2 * name.length + 1 < n) : readParameters n name = .error [] := by
    obtain ⟨n, rfl⟩ := Nat.exists_eq_add_one.mpr (Nat.zero_lt_of_lt bound)
    rcases name with _ | ⟨c, name⟩
    · rfl
    · have other : c ≠ '>' := fun close => more (opens_cons.mpr (List.mem_singleton.mpr close))
      rw [readParameters, if_neg other]
      exact bind_of_error (readName_of_disjoint plain)
  have last : ¬ Opens [':'] name := by
    rintro ⟨c, first, colon⟩
    exact plain (List.mem_of_mem_head? first) colon
  exact ⟨.inr ⟨[], name, divides_of_not_opens last, ends⟩, ends⟩

/-- An empty name in front of bounds is none to the reader, which takes the bounds for those of the
parameter before. -/
theorem halts_name {name s rest : List Char} (plain : name.Disjoint [':'])
    (whole : ∀ n, 2 * (name ++ s).length + 1 < n → readParameters n (name ++ s) = .error rest)
    (bounds : name = [] → (∀ n, 2 * s.length < n → readBounds n s = .error rest) ∨
      ∃ bs mid, Divides s bs mid ∧
        ∀ n, 2 * mid.length + 1 < n → readParameters n mid = .error rest) :
    Halts (name ++ s) rest := by
  refine ⟨?_, whole⟩
  by_cases unnamed : name = []
  · subst unnamed
    exact bounds rfl
  · exact .inr ⟨[], name ++ s, divides_of_not_opens (not_opens_colon plain unnamed), whole⟩

theorem halts_of_bounds {name s rest : List Char} (plain : name.Disjoint [':'])
    (more : ¬ Opens ['>'] name) (colon : Opens [':'] s)
    (unfinished : ∀ n, 2 * s.length < n → readBounds n s = .error rest) :
    Halts (name ++ s) rest := by
  refine halts_name plain (fun n bound => ?_) fun _ => .inl unfinished
  obtain ⟨n, rfl⟩ := Nat.exists_eq_add_one.mpr (Nat.zero_lt_of_lt bound)
  rw [List.length_append] at bound
  rw [readParameters_name plain more colon]
  exact bind_of_error (unfinished n (by omega))

theorem ParametersStop.halts {s rest : List Char} (stops : ParametersStop s rest) :
    Halts s rest := by
  induction stops with
  | name plain more => exact halts_of_disjoint plain more
  | bounds plain more stops => exact halts_of_bounds plain more stops.opens stops.reads
  | behind plain more bounds bounded _ ih =>
    have colon := bounds.opens bounded
    rcases ih.bounds with unfinished | ⟨bs', mid, divides, next⟩
    · exact halts_of_bounds plain more colon (bounds.reads unfinished)
    · have own := divides.bounds bounds
      have behind := divides.shorter.trans_lt (bounds.length_lt bounded)
      exact halts_name plain (own.reads_name plain more colon behind next) fun _ =>
        .inr ⟨_, mid, own, next⟩

/-! ### The whole text -/

theorem ParameterListAt.reads {s rest : List Char} {ps : Option (List TypeParameter)}
    (parameters : ParameterListAt s ps rest) (n : ℕ) (bound : 2 * s.length < n) :
    readParameterList n s = .ok (ps.map joined, rest) := by
  cases parameters with
  | absent bare =>
    rw [readParameterList]
    · rfl
    · rintro s' rfl
      exact bare (opens_cons.mpr List.mem_cons_self)
  | present list =>
    rw [List.length_cons] at bound
    exact bind_of_ok (list.reads.2 n (by omega)) rfl

/-- Neither brackets nor the mark of thrown types begin a type. -/
theorem TypeAt.leads {c : Char} (apart : c ∈ ['(', ')']) (s : List Char) (t : TypeSignature)
    (rest : List Char) (type : TypeAt s t rest) : ∃ c' u, s = c' :: u ∧ c' ≠ c := by
  obtain ⟨c', u, split, start⟩ := type.start
  have others : (baseLetters ++ boundStarts).all (· ∉ ['(', ')']) = true := by decide
  have other := of_decide_eq_true (List.all_eq_true.mp others c' start)
  exact ⟨c', u, split, fun same => other (same ▸ apart)⟩

theorem leads_parameter (s : List Char) (t : TypeSignature) (rest : List Char)
    (type : TypeAt s t rest) : Leads (· ≠ ')') false [] s := by
  obtain ⟨c, u, rfl, other⟩ := type.leads (c := ')') (by decide)
  exact ⟨c, u, rfl, decide_eq_true other, rfl⟩

theorem leads_thrown (s : List Char) : Leads (· = '^') true ['^'] s := ⟨'^', s, rfl, rfl, rfl⟩

theorem leads_any {s : List Char} (some : s ≠ []) : Leads (fun _ => true) false [] s := by
  obtain ⟨c, u, rfl⟩ := List.exists_cons_of_ne_nil some
  exact ⟨c, u, rfl, rfl, rfl⟩

theorem leads_type (s : List Char) (t : TypeSignature) (rest : List Char) (type : TypeAt s t rest) :
    Leads (fun _ => true) false [] s := by
  obtain ⟨c, u, rfl, -⟩ := type.start
  exact leads_any (List.cons_ne_nil c u)

theorem readBody_method (n : ℕ) (s : List Char) : readBody n ('(' :: s) = (do
    let (parameters, s) ← readTypesWhile (· ≠ ')') false n s
    let ((), s) ← expect ')' s
    let (result, s) ← readType n s
    let (throws, s) ← readTypesWhile (· = '^') true n s
    return (.method parameters result throws, s)) := rfl

theorem head_close {s : List Char} : ∀ c ∈ (')' :: s).head?, decide (c ≠ ')') = false := by
  intro c first
  rw [← Option.some.inj first]
  rfl

/-- Behind the result only the thrown types are left to read. -/
theorem readBody_thrown {s s' s'' : List Char} {ps : List TypeSignature} {result : TypeSignature}
    (parameters : TypesAt [] s ps (')' :: s')) (type : TypeAt s' result s'') (n : ℕ)
    (bound : 2 * s.length + 1 < n) : readBody n ('(' :: s) =
      (readTypesWhile (· = '^') true n s'').map fun a => (.method ps result a.1, a.2) := by
  have shorter := parameters.length_le
  rw [List.length_cons] at shorter
  rw [readBody_method]
  refine bind_of_ok (parameters.reads_last leads_parameter head_close n bound) ?_
  refine bind_of_ok (a := ((), s')) rfl (bind_of_ok (type.reads n (by omega)) ?_)
  dsimp only
  rcases readTypesWhile (· = '^') true n s'' with rest | a <;> rfl

theorem BodyAt.reads {s : List Char} {body : SignatureBody} (reads : BodyAt s body []) (n : ℕ)
    (bound : 2 * s.length + 1 < n) : readBody n s = .ok (body, []) := by
  cases reads with
  | method parameters type thrown =>
    have first := parameters.length_le
    have second := type.length_lt
    rw [List.length_cons] at bound first
    rw [readBody_thrown parameters type n (by omega),
      thrown.reads_last (fun s _ _ _ => leads_thrown s) nofun n (by omega)]
    rfl
  | types all =>
    have types : ¬ Opens ['('] s := by
      rintro ⟨c, first, opens⟩
      cases all with
      | nil => exact nomatch first
      | cons type _ =>
        obtain ⟨c', u, rfl, other⟩ := type.leads (c := '(') (by decide)
        exact other ((Option.some.inj first).trans (List.mem_singleton.mp opens))
    rw [readBody_types types]
    exact bind_of_ok (all.reads_last leads_type nofun n bound) rfl

theorem BodyStops.reads {s rest : List Char} (stops : BodyStops s rest) (n : ℕ)
    (bound : 2 * s.length + 1 < n) :
    readBody n s = .error rest ∨ ∃ body, readBody n s = .ok (body, rest) ∧ rest ≠ [] := by
  cases stops with
  | @parameter s s' _ _ parameters more stops =>
    rw [List.length_cons] at bound
    rw [readBody_method]
    rcases s' with _ | ⟨c, s'⟩
    · -- The list is read to the end of the text, where the bracket is missing.
      cases stops
      exact .inl (bind_of_ok (parameters.reads_last leads_parameter nofun n (by omega)) rfl)
    · have other : c ≠ ')' := fun same => more (opens_cons.mpr (List.mem_singleton.mpr same))
      have leads : Leads (· ≠ ')') false [] (c :: s') := ⟨c, s', rfl, decide_eq_true other, rfl⟩
      exact .inl (bind_of_error
        (parameters.reads_stops (c :: s') leads_parameter leads stops n (by omega)))
  | @result s s' _ _ parameters stops =>
    have first := parameters.length_le
    rw [List.length_cons] at bound first
    rw [readBody_method]
    refine .inl (bind_of_ok (parameters.reads_last leads_parameter head_close n (by omega)) ?_)
    exact bind_of_ok (a := ((), s')) rfl (bind_of_error (stops.reads n (by omega)))
  | @thrown s _ _ s₃ _ _ _ _ parameters type thrown stops =>
    have first := parameters.length_le
    have second := type.length_lt
    rw [List.length_cons] at bound first
    have unfinished := thrown.reads_stops s₃ (fun s _ _ _ => leads_thrown s)
      (leads_thrown s₃) stops n (by omega)
    rw [readBody_thrown parameters type n (by omega), unfinished]
    exact .inl rfl
  | @surplus c s _ _ rest _ _ _ parameters type thrown other =>
    have first := parameters.length_le
    have second := type.length_lt
    rw [List.length_cons] at bound first
    have last : ∀ c' ∈ (c :: rest).head?, decide (c' = '^') = false := by
      intro c' head
      rw [← Option.some.inj head]
      exact decide_eq_false other
    have finished := thrown.reads_last (fun s _ _ _ => leads_thrown s) last n (by omega)
    rw [readBody_thrown parameters type n (by omega), finished]
    exact .inr ⟨_, rfl, List.cons_ne_nil c rest⟩
  | @type s s' _ _ types before more stops =>
    rw [readBody_types types]
    exact .inl (bind_of_error
      (before.reads_stops s' leads_type (leads_any more) stops n bound))

/-- The tree in which only the first type parameter may have an empty name. -/
def joinedTree (tree : Signature) : Signature := ⟨tree.parameters.map joined, tree.body⟩

theorem Derives.reads {s : List Char} {tree : Signature} (derives : Derives s tree) :
    read (2 * s.length + 2) s = .ok (joinedTree tree) := by
  obtain ⟨parameters, body⟩ := derives
  have shorter := parameters.length_le
  rw [read]
  refine bind_of_ok (parameters.reads _ (by omega)) ?_
  exact bind_of_ok (body.reads _ (by omega)) rfl

theorem Stops.reads {s rest : List Char} (stops : Stops s rest) :
    read (2 * s.length + 2) s = .error rest := by
  cases stops with
  | @parameters s _ stops =>
    rw [List.length_cons]
    exact bind_of_error (bind_of_error (stops.halts.parameters _ (by omega)))
  | @body s s' _ ps parameters stops =>
    have shorter := parameters.length_le
    rw [read]
    refine bind_of_ok (parameters.reads _ (by omega)) ?_
    rcases stops.reads (2 * s.length + 2) (by omega) with failed | ⟨body, last, more⟩
    · exact bind_of_error failed
    · refine bind_of_ok last ?_
      dsimp only
      rw [if_neg (List.isEmpty_iff.not.mpr more)]

end ModRemap.Signature
