import ModRemap.Text.Split

/-! Generic signatures: type parameters, class, method and field types with type arguments. They are
read into a tree, and names are replaced in the tree. -/

namespace ModRemap

/-- How a type argument limits the types it stands for. -/
inductive Variance where
  | exact
  | upper
  | lower
deriving DecidableEq, Repr

mutual

inductive TypeSignature where
  | base (letter : Char)
  | parameter (name : List Char)
  | array (element : TypeSignature)
  | named (name : List Char) (more : TypeSuffix)

/-- What follows the first name of a class type. -/
inductive TypeSuffix where
  | done
  | arguments (args : TypeArguments) (more : TypeSuffix)
  | inner (name : List Char) (more : TypeSuffix)

inductive TypeArguments where
  | done
  | any (more : TypeArguments)
  | one (variance : Variance) (type : TypeSignature) (more : TypeArguments)

end

/-- A formal type parameter. A bound may be absent between its colons. -/
structure TypeParameter where
  name : List Char
  bounds : List (Option TypeSignature)

inductive SignatureBody where
  | method (parameters : List TypeSignature) (result : TypeSignature) (throws : List TypeSignature)
  | types (all : List TypeSignature)

structure Signature where
  parameters : Option (List TypeParameter)
  body : SignatureBody

namespace Signature

/-! ### Reading

A step yields what it read and the rest, or else the rest at which nothing can be read. Every step
takes a bound on the depth of calls; `parse` gives one that is never reached. -/

abbrev Step (α : Type) := List Char → Except (List Char) (α × List Char)

def isBase (c : Char) : Bool := "BCDFIJSZV".toList.contains c

/-- The name up to the first of the `stops`, which is not read. -/
def readName (stops : List Char) : Step (List Char)
  | [] => .error []
  | c :: s =>
    if stops.contains c then .ok ([], c :: s)
    else match readName stops s with
      | .error e => .error e
      | .ok (name, rest) => .ok (c :: name, rest)

def expect (c : Char) : Step Unit
  | [] => .error []
  | a :: s => if a = c then .ok ((), s) else .error (a :: s)

mutual

def readType : Nat → Step TypeSignature
  | 0, s => .error s
  | _ + 1, [] => .error []
  | n + 1, c :: s =>
    if isBase c then .ok (.base c, s)
    else if c = 'L' then do
      let (name, s) ← readName ['<', '.', ';'] s
      let (more, s) ← readSuffix n s
      return (.named name more, s)
    else if c = 'T' then do
      let (name, s) ← readName [';'] s
      let ((), s) ← expect ';' s
      return (.parameter name, s)
    else if c = '[' then do
      let (element, s) ← readType n s
      return (.array element, s)
    else .error (c :: s)

def readSuffix : Nat → Step TypeSuffix
  | 0, s => .error s
  | _ + 1, [] => .error []
  | n + 1, c :: s =>
    if c = ';' then .ok (.done, s)
    else if c = '<' then do
      let (args, s) ← readArguments n s
      let (more, s) ← readSuffix n s
      return (.arguments args more, s)
    else if c = '.' then do
      let (name, s) ← readName ['<', '.', ';'] s
      let (more, s) ← readSuffix n s
      return (.inner name more, s)
    else .error (c :: s)

def readArguments : Nat → Step TypeArguments
  | 0, s => .error s
  | _ + 1, [] => .error []
  | n + 1, c :: s =>
    if c = '>' then .ok (.done, s)
    else if c = '*' then do
      let (more, s) ← readArguments n s
      return (.any more, s)
    else do
      let (variance, t) : Variance × List Char :=
        if c = '+' then (.upper, s) else if c = '-' then (.lower, s) else (.exact, c :: s)
      let (type, s) ← readType n t
      let (more, s) ← readArguments n s
      return (.one variance type more, s)

end

/-- Types one after the other while the next character satisfies `p`. -/
def readTypesWhile (p : Char → Bool) (drop : Bool) : Nat → Step (List TypeSignature)
  | 0, s => .error s
  | _ + 1, [] => .ok ([], [])
  | n + 1, c :: s =>
    if p c then do
      let (type, s) ← readType n (if drop then s else c :: s)
      let (types, s) ← readTypesWhile p drop n s
      return (type :: types, s)
    else .ok ([], c :: s)

/-- The bound after a colon, which is absent unless a class type, a parameter or an array comes. -/
def readBound (n : Nat) : Step (Option TypeSignature)
  | [] => .ok (none, [])
  | c :: s =>
    if c = 'L' || c = 'T' || c = '[' then do
      let (type, s) ← readType n (c :: s)
      return (some type, s)
    else .ok (none, c :: s)

/-- The bounds of one type parameter, each after its colon. -/
def readBounds : Nat → Step (List (Option TypeSignature))
  | 0, s => .error s
  | _ + 1, [] => .ok ([], [])
  | n + 1, c :: s =>
    if c = ':' then do
      let (bound, s) ← readBound n s
      let (bounds, s) ← readBounds n s
      return (bound :: bounds, s)
    else .ok ([], c :: s)

def readParameters : Nat → Step (List TypeParameter)
  | 0, s => .error s
  | _ + 1, [] => .error []
  | n + 1, c :: s =>
    if c = '>' then .ok ([], s)
    else do
      let (name, s) ← readName [':'] (c :: s)
      let (bounds, s) ← readBounds n s
      let (more, s) ← readParameters n s
      return (⟨name, bounds⟩ :: more, s)

def readParameterList (n : Nat) : Step (Option (List TypeParameter))
  | '<' :: s => do
    let (parameters, s) ← readParameters n s
    return (some parameters, s)
  | s => .ok (none, s)

def readBody (n : Nat) : Step SignatureBody
  | '(' :: s => do
    let (parameters, s) ← readTypesWhile (· ≠ ')') false n s
    let ((), s) ← expect ')' s
    let (result, s) ← readType n s
    let (throws, s) ← readTypesWhile (· = '^') true n s
    return (.method parameters result throws, s)
  | s => do
    let (all, s) ← readTypesWhile (fun _ => true) false n s
    return (.types all, s)

def read (n : Nat) (s : List Char) : Except (List Char) Signature := do
  let (parameters, s) ← readParameterList n s
  let (body, s) ← readBody n s
  if s.isEmpty then .ok ⟨parameters, body⟩ else .error s

end Signature

inductive SignatureError where
  | unexpectedEnd (signature : String)
  /-- The offset counts bytes. -/
  | unexpected (signature : String) (offset : Nat) (found : Char)
deriving DecidableEq, Repr

def SignatureError.message : SignatureError → String
  | .unexpectedEnd signature => s!"unexpected end of signature '{signature}'"
  | .unexpected signature offset found =>
    s!"unexpected '{found}' at offset {offset} in signature '{signature}'"

namespace Signature

def sizeOf (s : List Char) : Nat := (s.map Char.utf8Size).foldr (· + ·) 0

def parse (signature : String) : Except SignatureError Signature :=
  let s := signature.toList
  match read (2 * s.length + 2) s with
  | .ok tree => .ok tree
  | .error [] => .error (.unexpectedEnd signature)
  | .error (c :: rest) =>
    .error (.unexpected signature (sizeOf s - sizeOf (c :: rest)) c)

end Signature

/-! ### Writing -/

def Variance.render : Variance → List Char
  | .exact => []
  | .upper => ['+']
  | .lower => ['-']

mutual

def TypeSignature.render : TypeSignature → List Char
  | .base c => [c]
  | .parameter name => 'T' :: name ++ [';']
  | .array element => '[' :: element.render
  | .named name more => 'L' :: name ++ more.render

def TypeSuffix.render : TypeSuffix → List Char
  | .done => [';']
  | .arguments args more => '<' :: args.render ++ more.render
  | .inner name more => '.' :: name ++ more.render

def TypeArguments.render : TypeArguments → List Char
  | .done => ['>']
  | .any more => '*' :: more.render
  | .one variance type more => variance.render ++ type.render ++ more.render

end

def renderAll (ts : List TypeSignature) : List Char := ts.flatMap TypeSignature.render

def TypeParameter.render (p : TypeParameter) : List Char :=
  p.name ++ p.bounds.flatMap fun b => ':' :: (b.map TypeSignature.render).getD []

def SignatureBody.render : SignatureBody → List Char
  | .method parameters result throws =>
    '(' :: renderAll parameters ++ ')' :: result.render ++ throws.flatMap fun t => '^' :: t.render
  | .types all => renderAll all

def Signature.render (s : Signature) : List Char :=
  (match s.parameters with
    | none => []
    | some ps => '<' :: ps.flatMap TypeParameter.render ++ ['>']) ++ s.body.render

/-! ### Replacing names -/

section
variable (f : String → Option String)

def lookupName (name : List Char) : Option (List Char) :=
  (f (String.ofList name)).map String.toList

mutual

def TypeSignature.rename : TypeSignature → TypeSignature
  | .base c => .base c
  | .parameter name => .parameter name
  | .array element => .array element.rename
  | .named name more =>
    let target := (lookupName f name).getD name
    .named target (more.rename name target)

/-- The name of a nested class is `$` and its own name after that of the outer class, both before
and after. Where the new one does not extend the new outer name, the nested name stays. -/
def TypeSuffix.rename (source target : List Char) : TypeSuffix → TypeSuffix
  | .done => .done
  | .arguments args more => .arguments args.rename (more.rename source target)
  | .inner name more =>
    let innerSource := source ++ '$' :: name
    let innerTarget := (lookupName f innerSource).getD (target ++ '$' :: name)
    let simple := (Text.dropStart? (target ++ ['$']) innerTarget).getD name
    .inner simple (more.rename innerSource innerTarget)

def TypeArguments.rename : TypeArguments → TypeArguments
  | .done => .done
  | .any more => .any more.rename
  | .one variance type more => .one variance type.rename more.rename

end

def TypeParameter.rename (p : TypeParameter) : TypeParameter :=
  ⟨p.name, p.bounds.map (Option.map (TypeSignature.rename f))⟩

def SignatureBody.rename : SignatureBody → SignatureBody
  | .method parameters result throws =>
    .method (parameters.map (TypeSignature.rename f)) (result.rename f)
      (throws.map (TypeSignature.rename f))
  | .types all => .types (all.map (TypeSignature.rename f))

def Signature.renameTree (s : Signature) : Signature :=
  ⟨s.parameters.map (List.map (TypeParameter.rename f)), s.body.rename f⟩

def Signature.rename (signature : String) : Except SignatureError String := do
  let tree ← Signature.parse signature
  return String.ofList (tree.renameTree f).render

end

end ModRemap
