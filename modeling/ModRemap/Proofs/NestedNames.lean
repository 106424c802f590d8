import Mathlib
import ModRemap.Signature

/-! What renaming does to the names in a signature: every name is replaced by itself, whatever stands
around it. The new name of a nested class is told from the names it is nested in. -/

namespace ModRemap

section
variable (f : String → Option String)

/-- The whole name of a class nested in `name`, with its simple names from the innermost on. -/
def nestedName (name : List Char) : List (List Char) → List Char
  | [] => name
  | simple :: outer => nestedName name outer ++ '$' :: simple

/-- What the whole name is mapped to. Where it is not listed, the simple name goes behind what the
outer name is mapped to. -/
def mappedName (name : List Char) : List (List Char) → List Char
  | [] => (lookupName f name).getD name
  | simple :: outer =>
    (lookupName f (nestedName name (simple :: outer))).getD (mappedName name outer ++ '$' :: simple)

/-- What takes the place of the innermost name: the mapped name, or what it has behind the mapped
outer name and `$`. A nested name that is not listed, or does not extend the outer one, stays. -/
def newName (name : List Char) : List (List Char) → List Char
  | [] => mappedName f name []
  | simple :: outer =>
    match lookupName f (nestedName name (simple :: outer)) with
    | none => simple
    | some target => (Text.dropStart? (mappedName f name outer ++ ['$']) target).getD simple

end

section
variable (g : List Char → List (List Char) → List Char)

mutual

/-- Replaces each name in a class type by what `g` says of it and of the names it is nested in. -/
def TypeSignature.withNames : TypeSignature → TypeSignature
  | .base c => .base c
  | .parameter name => .parameter name
  | .array element => .array element.withNames
  | .named name more => .named (g name []) (more.withNames name [])

def TypeSuffix.withNames (name : List Char) (outer : List (List Char)) : TypeSuffix → TypeSuffix
  | .done => .done
  | .arguments args more => .arguments args.withNames (more.withNames name outer)
  | .inner simple more =>
    .inner (g name (simple :: outer)) (more.withNames name (simple :: outer))

def TypeArguments.withNames : TypeArguments → TypeArguments
  | .done => .done
  | .any more => .any more.withNames
  | .one variance type more => .one variance type.withNames more.withNames

end

def TypeParameter.withNames (p : TypeParameter) : TypeParameter :=
  ⟨p.name, p.bounds.map (Option.map (TypeSignature.withNames g))⟩

def SignatureBody.withNames : SignatureBody → SignatureBody
  | .method parameters result throws =>
    .method (parameters.map (TypeSignature.withNames g)) (result.withNames g)
      (throws.map (TypeSignature.withNames g))
  | .types all => .types (all.map (TypeSignature.withNames g))

def Signature.withNames (s : Signature) : Signature :=
  ⟨s.parameters.map (List.map (TypeParameter.withNames g)), s.body.withNames g⟩

end

/-! ### Renaming replaces every name by itself -/

variable {f : String → Option String}

/-- The name that renaming puts behind `.` in front of what the outer name is mapped to. -/
theorem newName_cons (name simple : List Char) (outer : List (List Char)) :
    newName f name (simple :: outer) = (Text.dropStart? (mappedName f name outer ++ ['$'])
      (mappedName f name (simple :: outer))).getD simple := by
  rw [newName, mappedName]
  cases lookupName f (nestedName name (simple :: outer)) with
  | some target => rfl
  | none =>
    have front : Text.dropStart? (mappedName f name outer ++ ['$'])
        (mappedName f name outer ++ '$' :: simple) = some simple :=
      Text.dropStart?_eq_some_iff.mpr (by rw [List.append_assoc, List.singleton_append])
    rw [Option.getD_none, front, Option.getD_some]

mutual

theorem TypeSignature.rename_eq_withNames :
    (t : TypeSignature) → t.rename f = t.withNames (newName f)
  | .base _ => rfl
  | .parameter _ => rfl
  | .array element => by
    rw [TypeSignature.rename, TypeSignature.withNames, element.rename_eq_withNames]
  | .named name more => by
    have suffix := more.rename_eq_withNames name []
    rw [TypeSignature.rename, TypeSignature.withNames, ← suffix]
    rfl

theorem TypeSuffix.rename_eq_withNames : (more : TypeSuffix) → (name : List Char) →
    (outer : List (List Char)) → more.rename f (nestedName name outer) (mappedName f name outer) =
      more.withNames (newName f) name outer
  | .done, _, _ => rfl
  | .arguments args more, name, outer => by
    rw [TypeSuffix.rename, TypeSuffix.withNames, args.rename_eq_withNames,
      more.rename_eq_withNames name outer]
  | .inner simple more, name, outer => by
    have suffix := more.rename_eq_withNames name (simple :: outer)
    rw [TypeSuffix.rename, TypeSuffix.withNames, newName_cons, ← suffix]
    rfl

theorem TypeArguments.rename_eq_withNames :
    (args : TypeArguments) → args.rename f = args.withNames (newName f)
  | .done => rfl
  | .any more => by
    rw [TypeArguments.rename, TypeArguments.withNames, more.rename_eq_withNames]
  | .one _ type more => by
    rw [TypeArguments.rename, TypeArguments.withNames, type.rename_eq_withNames,
      more.rename_eq_withNames]

end

theorem Signature.renameTree_eq_withNames (tree : Signature) :
    tree.renameTree f = tree.withNames (newName f) := by
  have types : TypeSignature.rename f = TypeSignature.withNames (newName f) :=
    funext TypeSignature.rename_eq_withNames
  have parameters : TypeParameter.rename f = TypeParameter.withNames (newName f) := by
    funext p
    rw [TypeParameter.rename, TypeParameter.withNames, types]
  rw [renameTree, Signature.withNames, parameters]
  cases tree.body with
  | method ps result throws => rw [SignatureBody.rename, SignatureBody.withNames, types]
  | types all => rw [SignatureBody.rename, SignatureBody.withNames, types]

end ModRemap
