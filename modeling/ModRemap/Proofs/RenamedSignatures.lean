import Mathlib
import ModRemap.Proofs.NestedNames
import ModRemap.Proofs.SignatureReading

/-! Renaming a signature: a text is accepted exactly if the grammar derives it, the result is the text
of the same tree with other names in it, and with names that end no name it is read back as that tree. -/

namespace ModRemap

/-- No name that is looked up ends a name in a class type. -/
def Unending (f : String → Option String) : Prop :=
  ∀ name new, f name = some new → new.toList.Disjoint Signature.nameEnds

namespace Signature

variable {f : String → Option String} {g : List Char → List (List Char) → List Char}

/-- `g` puts a name that ends nowhere in the place of one that ends nowhere. -/
def Keeps (g : List Char → List (List Char) → List Char) : Prop :=
  (∀ name, name.Disjoint nameEnds → (g name []).Disjoint nameEnds) ∧
    ∀ name simple outer, simple.Disjoint nameEnds → (g name (simple :: outer)).Disjoint nameEnds

theorem lookupName_disjoint (unending : Unending f) {name new : List Char}
    (found : lookupName f name = some new) : new.Disjoint nameEnds := by
  obtain ⟨target, listed, rfl⟩ := Option.map_eq_some_iff.mp found
  exact unending _ target listed

theorem keeps_newName (unending : Unending f) : Keeps (newName f) := by
  refine ⟨fun name plain => ?_, fun name simple outer plain => ?_⟩
  · rw [newName, mappedName]
    cases found : lookupName f name with
    | none => exact plain
    | some new => exact lookupName_disjoint unending found
  · rw [newName]
    cases found : lookupName f (nestedName name (simple :: outer)) with
    | none => exact plain
    | some target =>
      dsimp only
      cases part : Text.dropStart? (mappedName f name outer ++ ['$']) target with
      | none => exact plain
      | some new =>
        have whole := Text.dropStart?_eq_some_iff.mp part
        have others := lookupName_disjoint unending found
        rw [whole] at others
        exact (List.disjoint_append_left.mp others).2

/-! ### The grammar of the new text -/

mutual

theorem TypeAt.withNames (keeps : Keeps g) {s rest : List Char} {t : TypeSignature} :
    TypeAt s t rest → ∀ rest', TypeAt ((t.withNames g).render ++ rest') (t.withNames g) rest'
  | .base letter, _ => .base letter
  | .named plain suffix, rest' => by
    rw [TypeSignature.withNames, TypeSignature.render, List.cons_append, List.cons_append,
      List.append_assoc]
    exact .named (keeps.1 _ plain) (suffix.withNames keeps _ _ rest')
  | .parameter plain, rest' => by
    rw [TypeSignature.withNames, TypeSignature.render, List.cons_append, List.cons_append,
      List.append_assoc, List.singleton_append]
    exact .parameter plain
  | .array element, rest' => by
    rw [TypeSignature.withNames, TypeSignature.render, List.cons_append]
    exact .array (element.withNames keeps rest')

theorem SuffixAt.withNames (keeps : Keeps g) {s rest : List Char} {more : TypeSuffix} :
    SuffixAt s more rest → ∀ name outer rest', SuffixAt
      ((more.withNames g name outer).render ++ rest') (more.withNames g name outer) rest'
  | .done, _, _, _ => .done
  | .arguments list suffix, name, outer, rest' => by
    rw [TypeSuffix.withNames, TypeSuffix.render, List.cons_append, List.cons_append,
      List.append_assoc]
    exact .arguments (list.withNames keeps _) (suffix.withNames keeps name outer rest')
  | .inner plain suffix, name, outer, rest' => by
    rw [TypeSuffix.withNames, TypeSuffix.render, List.cons_append, List.cons_append,
      List.append_assoc]
    exact .inner (keeps.2 name _ outer plain) (suffix.withNames keeps name _ rest')

theorem ArgumentsAt.withNames (keeps : Keeps g) {s rest : List Char} {args : TypeArguments} :
    ArgumentsAt s args rest →
      ∀ rest', ArgumentsAt ((args.withNames g).render ++ rest') (args.withNames g) rest'
  | .done, _ => .done
  | .any others, rest' => by
    rw [TypeArguments.withNames, TypeArguments.render, List.cons_append]
    exact .any (others.withNames keeps rest')
  | .one type others, rest' => by
    rw [TypeArguments.withNames, TypeArguments.render, List.append_assoc, List.append_assoc]
    exact .one (type.withNames keeps _) (others.withNames keeps rest')

end

/-- Names stand behind the first character of a type. -/
theorem TypeAt.head_withNames {s rest : List Char} {t : TypeSignature} (type : TypeAt s t rest)
    (rest' : List Char) : ((t.withNames g).render ++ rest').head? = s.head? := by
  cases type <;> rfl

theorem TypesAt.withNames (keeps : Keeps g) {lead s rest : List Char} {ts : List TypeSignature}
    (types : TypesAt lead s ts rest) (rest' : List Char) : TypesAt lead
      ((ts.map (TypeSignature.withNames g)).flatMap (fun t => lead ++ t.render) ++ rest')
      (ts.map (TypeSignature.withNames g)) rest' := by
  induction types with
  | nil => exact .nil
  | cons type _ ih =>
    rw [List.map_cons, List.flatMap_cons, List.append_assoc, List.append_assoc]
    exact .cons (type.withNames keeps _) ih

theorem TypesAt.head_withNames {s : List Char} {ts : List TypeSignature}
    (types : TypesAt [] s ts []) :
    (renderAll (ts.map (TypeSignature.withNames g))).head? = s.head? := by
  cases types with
  | nil => rfl
  | cons type _ =>
    rw [renderAll, List.map_cons, List.flatMap_cons, type.head_withNames]
    rfl

/-- The text of bounds, each behind its colon. -/
def renderBounds (bs : List (Option TypeSignature)) : List Char :=
  bs.flatMap fun b => ':' :: (b.map TypeSignature.render).getD []

/-- What comes behind the bounds decides where they end only by its first character. -/
theorem BoundsAt.withNames (keeps : Keeps g) {s rest rest' : List Char}
    {bs : List (Option TypeSignature)} (bounds : BoundsAt s bs rest)
    (same : rest'.head? = rest.head?) :
    BoundsAt (renderBounds (bs.map (Option.map (TypeSignature.withNames g))) ++ rest')
        (bs.map (Option.map (TypeSignature.withNames g))) rest' ∧
      (renderBounds (bs.map (Option.map (TypeSignature.withNames g))) ++ rest').head? = s.head? := by
  induction bounds with
  | done => exact ⟨.done, same⟩
  | absent bare _ ih =>
    obtain ⟨others, head⟩ := ih same
    refine ⟨.absent ?_ others, rfl⟩
    rwa [Opens, ← head] at bare
  | present opens type _ ih =>
    obtain ⟨others, head⟩ := ih same
    rw [List.map_cons, renderBounds, List.flatMap_cons, Option.map_some, Option.map_some,
      Option.getD_some, List.cons_append, List.cons_append, List.append_assoc]
    refine ⟨.present ?_ (type.withNames keeps _) others, rfl⟩
    rwa [Opens, ← type.head_withNames] at opens

theorem ParametersAt.withNames (keeps : Keeps g) {s rest : List Char} {ps : List TypeParameter}
    (parameters : ParametersAt s ps rest) (rest' : List Char) :
    ParametersAt ((ps.map (TypeParameter.withNames g)).flatMap TypeParameter.render ++ '>' :: rest')
        (ps.map (TypeParameter.withNames g)) rest' ∧
      ((ps.map (TypeParameter.withNames g)).flatMap TypeParameter.render ++
        '>' :: rest').head? = s.head? := by
  induction parameters with
  | done => exact ⟨.done, rfl⟩
  | @cons name s _ _ bs ps plain more bounds bounded _ ih =>
    obtain ⟨others, head⟩ := ih
    obtain ⟨own, first⟩ := bounds.withNames keeps head
    rw [List.map_cons, List.flatMap_cons, TypeParameter.withNames, TypeParameter.render,
      List.append_assoc, List.append_assoc]
    refine ⟨.cons plain more own (List.map_eq_nil_iff.not.mpr bounded) others, ?_⟩
    rw [List.head?_append, List.head?_append (l := name)]
    exact congrArg name.head?.or first

theorem BodyAt.withNames (keeps : Keeps g) {s : List Char} {body : SignatureBody}
    (reads : BodyAt s body []) :
    BodyAt (body.withNames g).render (body.withNames g) [] ∧
      (body.withNames g).render.head? = s.head? := by
  cases reads with
  | types all =>
    have text := all.withNames keeps []
    rw [List.append_nil] at text
    exact ⟨.types text, all.head_withNames⟩
  | @method _ _ _ _ ps throws result parameters type thrown =>
    refine ⟨?_, rfl⟩
    have third := thrown.withNames keeps []
    rw [List.append_nil] at third
    rw [SignatureBody.withNames, SignatureBody.render, List.cons_append, List.cons_append,
      List.append_assoc]
    exact .method (parameters.withNames keeps _) (type.withNames keeps _) third

theorem Derives.withNames (keeps : Keeps g) {s : List Char} {tree : Signature}
    (derives : Derives s tree) : Derives (tree.withNames g).render (tree.withNames g) := by
  cases derives with
  | @intro _ _ body parameters reads =>
    obtain ⟨rest, head⟩ := reads.withNames keeps
    cases parameters with
    | absent bare =>
      refine .intro (.absent ?_) rest
      rwa [Opens, ← head] at bare
    | present list =>
      have first := (list.withNames keeps (body.withNames g).render).1
      rw [List.append_cons] at first
      exact .intro (.present first) rest

/-! ### Names that divide no parameters -/

theorem leading_withNames (ps : List TypeParameter) :
    leading (ps.map (TypeParameter.withNames g)) =
      ((leading ps).1.map (Option.map (TypeSignature.withNames g)),
        (leading ps).2.map (TypeParameter.withNames g)) := by
  induction ps with
  | nil => rfl
  | cons p ps ih =>
    rw [List.map_cons, leading, leading, ih]
    have name : (p.withNames g).name = p.name := rfl
    rw [name]
    split_ifs <;> simp only [TypeParameter.withNames, List.map_append, List.map_cons, List.map_nil]

theorem joined_withNames (ps : List TypeParameter) :
    joined (ps.map (TypeParameter.withNames g)) = (joined ps).map (TypeParameter.withNames g) := by
  cases ps with
  | nil => rfl
  | cons p ps =>
    rw [List.map_cons, joined, joined, leading_withNames, List.map_cons, TypeParameter.withNames,
      TypeParameter.withNames, List.map_append]

theorem render_leading (ps : List TypeParameter) :
    renderBounds (leading ps).1 ++ (leading ps).2.flatMap TypeParameter.render =
      ps.flatMap TypeParameter.render := by
  induction ps with
  | nil => rfl
  | cons p ps ih =>
    rw [List.flatMap_cons, ← ih, leading, TypeParameter.render]
    split_ifs with unnamed
    · rw [unnamed, renderBounds, List.flatMap_append, List.append_assoc, List.nil_append]
      rfl
    · rw [renderBounds, List.flatMap_nil, List.nil_append, List.flatMap_cons, TypeParameter.render,
        List.flatMap_append]
      simp only [renderBounds, List.append_assoc]

theorem render_joined (ps : List TypeParameter) :
    (joined ps).flatMap TypeParameter.render = ps.flatMap TypeParameter.render := by
  cases ps with
  | nil => rfl
  | cons p ps =>
    rw [joined, List.flatMap_cons, List.flatMap_cons, ← render_leading ps, TypeParameter.render,
      TypeParameter.render, List.flatMap_append]
    simp only [renderBounds, List.append_assoc]

theorem joinedTree_withNames (tree : Signature) :
    joinedTree (tree.withNames g) = (joinedTree tree).withNames g := by
  rw [joinedTree, joinedTree, Signature.withNames, Signature.withNames]
  cases tree.parameters with
  | none => rfl
  | some ps => rw [Option.map_some, Option.map_some, Option.map_some, Option.map_some, joined_withNames]

theorem render_joinedTree (tree : Signature) : (joinedTree tree).render = tree.render := by
  rw [joinedTree, Signature.render, Signature.render]
  cases tree.parameters with
  | none => rfl
  | some ps =>
    dsimp only [Option.map_some]
    rw [render_joined]

/-! ### Renaming a text -/

theorem parse_of_derives {text : String} {tree : Signature} (derives : Derives text.toList tree) :
    parse text = .ok (joinedTree tree) := by
  rw [parse_eq, derives.reads]
  rfl

theorem rename_of_derives {text : String} {tree : Signature} (derives : Derives text.toList tree) :
    rename f text = .ok (String.ofList (tree.withNames (newName f)).render) := by
  rw [rename, parse_of_derives derives]
  refine congrArg (fun s => Except.ok (String.ofList s)) ?_
  rw [renameTree_eq_withNames, ← joinedTree_withNames, render_joinedTree]

theorem rename_of_stops {text : String} {rest : List Char} (stops : Stops text.toList rest) :
    rename f text = .error (stoppedAt text rest) := by
  rw [rename, parse_eq, stops.reads]
  rfl

/-- What was read divides its parameters as reading does, and names of classes do not matter there. -/
theorem parse_withNames (keeps : Keeps g) {text : String} {tree : Signature}
    (parsed : parse text = .ok tree) :
    parse (String.ofList (tree.withNames g).render) = .ok (tree.withNames g) := by
  have derives := derives_of_parse parsed
  have divided : joinedTree tree = tree :=
    Except.ok.inj ((parse_of_derives derives).symm.trans parsed)
  have kept := derives.withNames keeps
  rw [← String.toList_ofList (l := (tree.withNames g).render)] at kept
  rw [parse_of_derives kept, joinedTree_withNames, divided]

theorem derives_or_stops (s : List Char) : (∃ tree, Derives s tree) ∨ ∃ rest, Stops s rest := by
  have judged := read_spec s
  cases found : read (2 * s.length + 2) s with
  | ok tree =>
    rw [found] at judged
    exact .inl ⟨tree, judged⟩
  | error rest =>
    rw [found] at judged
    exact .inr ⟨rest, judged⟩

/-- A text is derived, or it stops somewhere: renaming tells which, whatever is looked up. A text with
more than one tree is the text of each, and so is the new text. -/
theorem rename_grammar (f : String → Option String) (text : String) :
    ((∃ tree, Derives text.toList tree) ∨ ∃ rest, Stops text.toList rest) ∧
    ((∃ new, rename f text = .ok new) ↔ ∃ tree, Derives text.toList tree) ∧
    (∀ error, rename f text = .error error ↔
      ∃ rest, Stops text.toList rest ∧ error = stoppedAt text rest) ∧
    ∀ tree, Derives text.toList tree →
      rename f text = .ok (String.ofList (tree.withNames (newName f)).render) ∧
      (Unending f → Derives (tree.withNames (newName f)).render (tree.withNames (newName f)) ∧
        (parse text = .ok tree → parse (String.ofList (tree.withNames (newName f)).render) =
          .ok (tree.withNames (newName f)))) := by
  refine ⟨derives_or_stops text.toList, ⟨?_, ?_⟩, fun error => ⟨?_, ?_⟩, fun tree derives =>
    ⟨rename_of_derives derives, fun unending => ?_⟩⟩
  · rintro ⟨new, renamed⟩
    refine (derives_or_stops text.toList).resolve_right fun ⟨rest, stops⟩ => ?_
    exact nomatch renamed.symm.trans (rename_of_stops stops)
  · rintro ⟨tree, derives⟩
    exact ⟨_, rename_of_derives derives⟩
  · intro failed
    rcases derives_or_stops text.toList with ⟨tree, derives⟩ | ⟨rest, stops⟩
    · exact nomatch failed.symm.trans (rename_of_derives derives)
    · exact ⟨rest, stops, Except.error.inj (failed.symm.trans (rename_of_stops stops))⟩
  · rintro ⟨rest, stops, rfl⟩
    exact rename_of_stops stops
  · have keeps := keeps_newName unending
    exact ⟨derives.withNames keeps, parse_withNames keeps⟩

/-- A class and the one nested in it get other names. -/
def outerInner (name : String) : Option String :=
  if name = "O" then some "P" else if name = "O$I" then some "P$J" else none

theorem unending_outerInner : Unending outerInner := by
  intro name new found
  rw [outerInner] at found
  split_ifs at found
  · obtain rfl := Option.some.inj found
    simp [nameEnds]
  · obtain rfl := Option.some.inj found
    simp [nameEnds]

theorem rename_grammar_nested :
    let inner (outer simple : List Char) : Signature :=
      ⟨none, .types [.named outer
        (.arguments (.one .exact (.parameter ['T']) .done) (.inner simple .done))]⟩
    Unending outerInner ∧ Derives "LO<TT;>.I;".toList (inner ['O'] ['I']) ∧
      rename outerInner "LO<TT;>.I;" = .ok "LP<TT;>.J;" ∧
      parse "LP<TT;>.J;" = .ok (inner ['P'] ['J']) := by
  intro inner
  have parsed : parse "LO<TT;>.I;" = .ok (inner ['O'] ['I']) := rfl
  have derives := derives_of_parse parsed
  obtain ⟨renamed, kept⟩ := (rename_grammar outerInner "LO<TT;>.I;").2.2.2 _ derives
  exact ⟨unending_outerInner, derives, renamed, (kept unending_outerInner).2 parsed⟩

end Signature

end ModRemap
