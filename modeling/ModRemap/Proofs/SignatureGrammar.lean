import Mathlib
import ModRemap.Signature

/-! The grammar of signatures. `TypeAt s t rest` says that the text `s` is the type `t` and then `rest`,
`TypeStops s rest` that `s` begins with no type and that `rest` is what follows the part of it that
still could; the other relations say the same of the other parts of a signature. -/

namespace ModRemap.Signature

/-- The letters of the types that have no name. -/
def baseLetters : List Char := ['B', 'C', 'D', 'F', 'I', 'J', 'S', 'Z', 'V']

/-- What ends a name in a class type. -/
def nameEnds : List Char := ['<', '.', ';']

/-- The text begins with one of the characters. -/
def Opens (starts : List Char) (s : List Char) : Prop := ∃ c ∈ s.head?, c ∈ starts

/-- What shows behind a colon that there is a bound. -/
def boundStarts : List Char := ['L', 'T', '[']

mutual

inductive TypeAt : List Char → TypeSignature → List Char → Prop where
  | base {c : Char} {s : List Char} (letter : c ∈ baseLetters) : TypeAt (c :: s) (.base c) s
  | named {name s rest : List Char} {more : TypeSuffix} (plain : name.Disjoint nameEnds)
      (suffix : SuffixAt s more rest) : TypeAt ('L' :: (name ++ s)) (.named name more) rest
  | parameter {name s : List Char} (plain : name.Disjoint [';']) :
      TypeAt ('T' :: (name ++ ';' :: s)) (.parameter name) s
  | array {s rest : List Char} {t : TypeSignature} (element : TypeAt s t rest) :
      TypeAt ('[' :: s) (.array t) rest

/-- What follows the first name of a class type, with the semicolon at its end. -/
inductive SuffixAt : List Char → TypeSuffix → List Char → Prop where
  | done {s : List Char} : SuffixAt (';' :: s) .done s
  | arguments {s s' rest : List Char} {args : TypeArguments} {more : TypeSuffix}
      (list : ArgumentsAt s args s') (suffix : SuffixAt s' more rest) :
      SuffixAt ('<' :: s) (.arguments args more) rest
  | inner {name s rest : List Char} {more : TypeSuffix} (plain : name.Disjoint nameEnds)
      (suffix : SuffixAt s more rest) : SuffixAt ('.' :: (name ++ s)) (.inner name more) rest

/-- Type arguments, with the bracket that closes their list. -/
inductive ArgumentsAt : List Char → TypeArguments → List Char → Prop where
  | done {s : List Char} : ArgumentsAt ('>' :: s) .done s
  | any {s rest : List Char} {more : TypeArguments} (others : ArgumentsAt s more rest) :
      ArgumentsAt ('*' :: s) (.any more) rest
  | one {variance : Variance} {s s' rest : List Char} {t : TypeSignature} {more : TypeArguments}
      (type : TypeAt s t s') (others : ArgumentsAt s' more rest) :
      ArgumentsAt (variance.render ++ s) (.one variance t more) rest

end

/-- Types one after the other, each behind `lead`. -/
inductive TypesAt (lead : List Char) : List Char → List TypeSignature → List Char → Prop where
  | nil {s : List Char} : TypesAt lead s [] s
  | cons {s s' rest : List Char} {t : TypeSignature} {ts : List TypeSignature}
      (type : TypeAt s t s') (others : TypesAt lead s' ts rest) :
      TypesAt lead (lead ++ s) (t :: ts) rest

/-- The bounds of a type parameter, each behind a colon. One is there exactly if the text behind the
colon begins like a class type, a type parameter or an array. -/
inductive BoundsAt : List Char → List (Option TypeSignature) → List Char → Prop where
  | done {s : List Char} : BoundsAt s [] s
  | absent {s rest : List Char} {bs : List (Option TypeSignature)}
      (bare : ¬ Opens boundStarts s) (others : BoundsAt s bs rest) :
      BoundsAt (':' :: s) (none :: bs) rest
  | present {s s' rest : List Char} {t : TypeSignature} {bs : List (Option TypeSignature)}
      (bound : Opens boundStarts s) (type : TypeAt s t s') (others : BoundsAt s' bs rest) :
      BoundsAt (':' :: s) (some t :: bs) rest

/-- Type parameters, with the bracket that closes their list. A name ends at the first colon. It may
be empty, so that there is more than one way to tell parameters and bounds apart. -/
inductive ParametersAt : List Char → List TypeParameter → List Char → Prop where
  | done {s : List Char} : ParametersAt ('>' :: s) [] s
  | cons {name s s' rest : List Char} {bs : List (Option TypeSignature)} {ps : List TypeParameter}
      (plain : name.Disjoint [':']) (more : ¬ Opens ['>'] name) (bounds : BoundsAt s bs s')
      (bounded : bs ≠ []) (others : ParametersAt s' ps rest) :
      ParametersAt (name ++ s) (⟨name, bs⟩ :: ps) rest

inductive ParameterListAt : List Char → Option (List TypeParameter) → List Char → Prop where
  | absent {s : List Char} (bare : ¬ Opens ['<'] s) : ParameterListAt s none s
  | present {s rest : List Char} {ps : List TypeParameter} (list : ParametersAt s ps rest) :
      ParameterListAt ('<' :: s) (some ps) rest

inductive BodyAt : List Char → SignatureBody → List Char → Prop where
  | method {s s' s'' rest : List Char} {ps throws : List TypeSignature} {result : TypeSignature}
      (parameters : TypesAt [] s ps (')' :: s')) (type : TypeAt s' result s'')
      (thrown : TypesAt ['^'] s'' throws rest) : BodyAt ('(' :: s) (.method ps result throws) rest
  | types {s rest : List Char} {ts : List TypeSignature} (all : TypesAt [] s ts rest) :
      BodyAt s (.types ts) rest

/-- The text is a signature as a whole. -/
inductive Derives : List Char → Signature → Prop where
  | intro {s s' : List Char} {ps : Option (List TypeParameter)} {body : SignatureBody}
      (parameters : ParameterListAt s ps s') (rest : BodyAt s' body []) : Derives s ⟨ps, body⟩

/-! ### Where a text stops to be a signature -/

mutual

inductive TypeStops : List Char → List Char → Prop where
  | atEnd : TypeStops [] []
  | start {c : Char} {s : List Char} (other : c ∉ baseLetters ++ boundStarts) :
      TypeStops (c :: s) (c :: s)
  | name {name : List Char} (plain : name.Disjoint nameEnds) : TypeStops ('L' :: name) []
  | suffix {name s rest : List Char} (plain : name.Disjoint nameEnds) (stops : SuffixStops s rest)
      (ended : Opens nameEnds s) : TypeStops ('L' :: (name ++ s)) rest
  | parameter {name : List Char} (plain : name.Disjoint [';']) : TypeStops ('T' :: name) []
  | element {s rest : List Char} (stops : TypeStops s rest) : TypeStops ('[' :: s) rest

inductive SuffixStops : List Char → List Char → Prop where
  | atEnd : SuffixStops [] []
  | start {c : Char} {s : List Char} (other : c ∉ nameEnds) : SuffixStops (c :: s) (c :: s)
  | arguments {s rest : List Char} (stops : ArgumentsStop s rest) : SuffixStops ('<' :: s) rest
  | behind {s s' rest : List Char} {args : TypeArguments} (list : ArgumentsAt s args s')
      (stops : SuffixStops s' rest) : SuffixStops ('<' :: s) rest
  | name {name : List Char} (plain : name.Disjoint nameEnds) : SuffixStops ('.' :: name) []
  | inner {name s rest : List Char} (plain : name.Disjoint nameEnds) (stops : SuffixStops s rest)
      (ended : Opens nameEnds s) : SuffixStops ('.' :: (name ++ s)) rest

inductive ArgumentsStop : List Char → List Char → Prop where
  | atEnd : ArgumentsStop [] []
  | any {s rest : List Char} (stops : ArgumentsStop s rest) : ArgumentsStop ('*' :: s) rest
  | exact {c : Char} {s rest : List Char} (other : c ∉ ['>', '*', '+', '-'])
      (stops : TypeStops (c :: s) rest) : ArgumentsStop (c :: s) rest
  | limit {variance : Variance} {s rest : List Char} (limits : variance ≠ .exact)
      (stops : TypeStops s rest) : ArgumentsStop (variance.render ++ s) rest
  | behind {variance : Variance} {s s' rest : List Char} {t : TypeSignature} (type : TypeAt s t s')
      (stops : ArgumentsStop s' rest) : ArgumentsStop (variance.render ++ s) rest

end

inductive BoundsStop : List Char → List Char → Prop where
  | bound {s rest : List Char} (opens : Opens boundStarts s) (stops : TypeStops s rest) :
      BoundsStop (':' :: s) rest
  | absent {s rest : List Char} (bare : ¬ Opens boundStarts s) (stops : BoundsStop s rest) :
      BoundsStop (':' :: s) rest
  | present {s s' rest : List Char} {t : TypeSignature} (bound : Opens boundStarts s)
      (type : TypeAt s t s') (stops : BoundsStop s' rest) : BoundsStop (':' :: s) rest

inductive ParametersStop : List Char → List Char → Prop where
  | name {name : List Char} (plain : name.Disjoint [':']) (more : ¬ Opens ['>'] name) :
      ParametersStop name []
  | bounds {name s rest : List Char} (plain : name.Disjoint [':']) (more : ¬ Opens ['>'] name)
      (stops : BoundsStop s rest) : ParametersStop (name ++ s) rest
  | behind {name s s' rest : List Char} {bs : List (Option TypeSignature)}
      (plain : name.Disjoint [':']) (more : ¬ Opens ['>'] name) (bounds : BoundsAt s bs s')
      (bounded : bs ≠ []) (stops : ParametersStop s' rest) : ParametersStop (name ++ s) rest

inductive BodyStops : List Char → List Char → Prop where
  | parameter {s s' rest : List Char} {ps : List TypeSignature} (parameters : TypesAt [] s ps s')
      (more : ¬ Opens [')'] s') (stops : TypeStops s' rest) : BodyStops ('(' :: s) rest
  | result {s s' rest : List Char} {ps : List TypeSignature}
      (parameters : TypesAt [] s ps (')' :: s')) (stops : TypeStops s' rest) :
      BodyStops ('(' :: s) rest
  | thrown {s s' s'' s₃ rest : List Char} {ps throws : List TypeSignature} {result : TypeSignature}
      (parameters : TypesAt [] s ps (')' :: s')) (type : TypeAt s' result s'')
      (thrown : TypesAt ['^'] s'' throws ('^' :: s₃)) (stops : TypeStops s₃ rest) :
      BodyStops ('(' :: s) rest
  | surplus {c : Char} {s s' s'' rest : List Char} {ps throws : List TypeSignature}
      {result : TypeSignature} (parameters : TypesAt [] s ps (')' :: s'))
      (type : TypeAt s' result s'') (thrown : TypesAt ['^'] s'' throws (c :: rest)) (other : c ≠ '^') :
      BodyStops ('(' :: s) (c :: rest)
  | type {s s' rest : List Char} {ts : List TypeSignature} (types : ¬ Opens ['('] s)
      (before : TypesAt [] s ts s') (more : s' ≠ []) (stops : TypeStops s' rest) : BodyStops s rest

inductive Stops : List Char → List Char → Prop where
  | parameters {s rest : List Char} (stops : ParametersStop s rest) : Stops ('<' :: s) rest
  | body {s s' rest : List Char} {ps : Option (List TypeParameter)}
      (parameters : ParameterListAt s ps s') (stops : BodyStops s' rest) : Stops s rest

/-! ### The text of what was read -/

mutual

theorem TypeAt.eq_render {s rest : List Char} {t : TypeSignature} :
    TypeAt s t rest → s = t.render ++ rest
  | .base _ => rfl
  | .named _ suffix => by
    rw [suffix.eq_render, TypeSignature.render, List.cons_append, List.cons_append,
      List.append_assoc]
  | .parameter _ => by
    rw [TypeSignature.render, List.cons_append, List.cons_append, List.append_assoc,
      List.singleton_append]
  | .array element => by rw [element.eq_render, TypeSignature.render, List.cons_append]

theorem SuffixAt.eq_render {s rest : List Char} {more : TypeSuffix} :
    SuffixAt s more rest → s = more.render ++ rest
  | .done => rfl
  | .arguments list suffix => by
    rw [list.eq_render, suffix.eq_render, TypeSuffix.render, List.cons_append, List.cons_append,
      List.append_assoc]
  | .inner _ suffix => by
    rw [suffix.eq_render, TypeSuffix.render, List.cons_append, List.cons_append, List.append_assoc]

theorem ArgumentsAt.eq_render {s rest : List Char} {args : TypeArguments} :
    ArgumentsAt s args rest → s = args.render ++ rest
  | .done => rfl
  | .any others => by rw [others.eq_render, TypeArguments.render, List.cons_append]
  | .one type others => by
    rw [type.eq_render, others.eq_render, TypeArguments.render, List.append_assoc, List.append_assoc]

end

theorem TypesAt.eq_render {lead s rest : List Char} {ts : List TypeSignature}
    (types : TypesAt lead s ts rest) : s = (ts.flatMap fun t => lead ++ t.render) ++ rest := by
  induction types with
  | nil => rfl
  | cons type _ ih =>
    rw [type.eq_render, ih, List.flatMap_cons, List.append_assoc, List.append_assoc]

theorem BoundsAt.eq_render {s rest : List Char} {bs : List (Option TypeSignature)}
    (bounds : BoundsAt s bs rest) :
    s = (bs.flatMap fun b => ':' :: (b.map TypeSignature.render).getD []) ++ rest := by
  induction bounds with
  | done => rfl
  | absent _ _ ih =>
    rw [ih, List.flatMap_cons]
    rfl
  | present _ type _ ih =>
    rw [type.eq_render, ih, List.flatMap_cons, Option.map_some, Option.getD_some, List.cons_append,
      List.cons_append, List.append_assoc]

theorem ParametersAt.eq_render {s rest : List Char} {ps : List TypeParameter}
    (parameters : ParametersAt s ps rest) : s = ps.flatMap TypeParameter.render ++ '>' :: rest := by
  induction parameters with
  | done => rfl
  | cons _ _ bounds _ _ ih =>
    rw [bounds.eq_render, ih, List.flatMap_cons, TypeParameter.render, List.append_assoc,
      List.append_assoc]

theorem Derives.eq_render {s : List Char} {tree : Signature} (derives : Derives s tree) :
    s = tree.render := by
  obtain ⟨parameters, body⟩ := derives
  have last : ∀ {s rest body}, BodyAt s body rest → s = body.render ++ rest := by
    intro s rest body reads
    cases reads with
    | types all => exact all.eq_render
    | method parameters type thrown =>
      rw [parameters.eq_render, type.eq_render, thrown.eq_render, SignatureBody.render]
      simp only [renderAll, List.nil_append, List.cons_append, List.append_assoc]
  rw [Signature.render]
  cases parameters with
  | absent _ => rw [last body, List.append_nil, List.nil_append]
  | present list =>
    rw [list.eq_render, last body]
    simp only [List.append_nil, List.cons_append, List.nil_append, List.append_assoc]

/-! ### What is read is not empty -/

theorem TypeAt.length_lt {s rest : List Char} {t : TypeSignature} (type : TypeAt s t rest) :
    rest.length < s.length := by
  have text : 0 < t.render.length := by cases t <;> exact Nat.succ_pos _
  rw [type.eq_render, List.length_append]
  omega

theorem SuffixAt.length_lt {s rest : List Char} {more : TypeSuffix} (suffix : SuffixAt s more rest) :
    rest.length < s.length := by
  have text : 0 < more.render.length := by cases more <;> exact Nat.succ_pos _
  rw [suffix.eq_render, List.length_append]
  omega

theorem ArgumentsAt.length_lt {s rest : List Char} {args : TypeArguments} :
    ArgumentsAt s args rest → rest.length < s.length
  | .done => Nat.lt_succ_self _
  | .any others => others.length_lt.trans (Nat.lt_succ_self _)
  | .one type others => by
    have first := type.length_lt
    have second := others.length_lt
    rw [List.length_append]
    omega

theorem TypesAt.length_le {lead s rest : List Char} {ts : List TypeSignature}
    (types : TypesAt lead s ts rest) : rest.length ≤ s.length := by
  rw [types.eq_render, List.length_append]
  omega

theorem BoundsAt.length_le {s rest : List Char} {bs : List (Option TypeSignature)}
    (bounds : BoundsAt s bs rest) : rest.length ≤ s.length := by
  rw [bounds.eq_render, List.length_append]
  omega

theorem BoundsAt.length_lt {s rest : List Char} {bs : List (Option TypeSignature)}
    (bounds : BoundsAt s bs rest) (bounded : bs ≠ []) : rest.length < s.length := by
  cases bounds with
  | done => exact absurd rfl bounded
  | absent _ others => exact Nat.lt_succ_of_le others.length_le
  | present _ type others => exact (others.length_le.trans_lt type.length_lt).trans (Nat.lt_succ_self _)

theorem ParameterListAt.length_le {s rest : List Char} {ps : Option (List TypeParameter)} :
    ParameterListAt s ps rest → rest.length ≤ s.length
  | .absent _ => le_rfl
  | .present list => by
    rw [list.eq_render, List.length_cons, List.length_append, List.length_cons]
    omega

end ModRemap.Signature
