import Mathlib
import ModRemap.Proofs.DescriptorNames

/-! Renaming maps the class names of a descriptor and nothing else: no names and the same names leave
any text as it is, two renamings are one, and a well-formed descriptor keeps its shape. -/

namespace ModRemap.Descriptor

variable {f g : String → Option String}

/-! ### Renaming piece by piece -/

/-- Renaming makes `new` of `old`, whatever follows. -/
def Turns (f : String → Option String) (old new : List Char) : Prop :=
  ∀ rest, renameFrom f none (old ++ rest) = new ++ renameFrom f none rest

theorem turns_nil : Turns f [] [] := fun _ => rfl

theorem Turns.append {old new old' new' : List Char} (first : Turns f old new)
    (second : Turns f old' new') : Turns f (old ++ old') (new ++ new') := by
  intro rest
  rw [List.append_assoc, first, second, List.append_assoc]

theorem turns_char {c : Char} (other : c ≠ 'L') : Turns f [c] [c] := by
  intro rest
  rw [List.singleton_append, renameFrom, if_neg other, List.singleton_append]

theorem turns_class {name : List Char} (plain : ';' ∉ name) :
    Turns f ('L' :: name ++ [';']) ('L' :: substitute f name ++ [';']) := by
  intro rest
  have whole := renameFrom_closed (f := f) plain [] rest
  rw [List.reverse_nil, List.nil_append] at whole
  rw [List.cons_append, List.cons_append, List.append_assoc, List.singleton_append, renameFrom,
    if_pos rfl, whole, List.cons_append, List.cons_append, List.append_assoc, List.singleton_append]

theorem turns_flatMap {α : Type} {l : List α} {old new : α → List Char}
    (each : ∀ a ∈ l, Turns f (old a) (new a)) : Turns f (l.flatMap old) (l.flatMap new) := by
  induction l with
  | nil => exact turns_nil
  | cons a l ih =>
    obtain ⟨first, others⟩ := List.forall_mem_cons.mp each
    exact first.append (ih others)

theorem Turns.rename_eq {old new : List Char} (turns : Turns f old new) :
    rename f (String.ofList old) = String.ofList new := by
  have whole := turns []
  rw [List.append_nil, renameFrom, List.append_nil] at whole
  rw [rename, String.toList_ofList, whole]

/-! ### Well-formed descriptors -/

inductive Primitive where
  | byte
  | char
  | double
  | float
  | int
  | long
  | short
  | boolean
deriving DecidableEq

def Primitive.letter : Primitive → Char
  | .byte => 'B'
  | .char => 'C'
  | .double => 'D'
  | .float => 'F'
  | .int => 'I'
  | .long => 'J'
  | .short => 'S'
  | .boolean => 'Z'

/-- The type of a field or parameter, with something of type `α` for each class. -/
inductive FieldType (α : Type) where
  | primitive (type : Primitive)
  | object (name : α)
  | array (element : FieldType α)
deriving DecidableEq

/-- What a descriptor tells of a field or of a method. A method without a result is void. -/
inductive Form (α : Type) where
  | field (type : FieldType α)
  | method (parameters : List (FieldType α)) (result : Option (FieldType α))
deriving DecidableEq

/-- A name that can stand between `L` and `;`. -/
structure ClassName where
  text : List Char
  nonempty : text ≠ []
  plain : ';' ∉ text

namespace FieldType

variable {α β : Type}

def map (h : α → β) : FieldType α → FieldType β
  | .primitive type => .primitive type
  | .object name => .object (h name)
  | .array element => .array (element.map h)

def names : FieldType α → List α
  | .primitive _ => []
  | .object name => [name]
  | .array element => element.names

def text : FieldType ClassName → List Char
  | .primitive type => [type.letter]
  | .object name => 'L' :: name.text ++ [';']
  | .array element => '[' :: element.text

theorem names_map (h : α → β) (t : FieldType α) : (t.map h).names = t.names.map h := by
  induction t with
  | primitive _ => rfl
  | object _ => rfl
  | array _ ih => exact ih

theorem map_map {γ : Type} (h : α → β) (k : β → γ) (t : FieldType α) :
    (t.map h).map k = t.map (k ∘ h) := by
  induction t with
  | primitive _ => rfl
  | object _ => rfl
  | array _ ih => exact congrArg FieldType.array ih

end FieldType

namespace Form

variable {α β : Type}

def map (h : α → β) : Form α → Form β
  | .field type => .field (type.map h)
  | .method parameters result =>
    .method (parameters.map (FieldType.map h)) (result.map (FieldType.map h))

/-- The class names, from left to right. -/
def names : Form α → List α
  | .field type => type.names
  | .method parameters result =>
    parameters.flatMap FieldType.names ++ (result.map FieldType.names).getD []

/-- The primitives, the depths of the arrays and the number of parameters: all but the names. -/
def shape (form : Form α) : Form Unit := form.map fun _ => ()

def text : Form ClassName → List Char
  | .field type => type.text
  | .method parameters result =>
    '(' :: parameters.flatMap FieldType.text ++ ')' :: (result.map FieldType.text).getD ['V']

theorem names_map (h : α → β) (form : Form α) : (form.map h).names = form.names.map h := by
  cases form with
  | field type => exact type.names_map h
  | method parameters result =>
    simp only [map, names, List.flatMap_map, List.map_append, List.map_flatMap,
      FieldType.names_map]
    cases result with
    | none => rfl
    | some type => simp only [Option.map_some, Option.getD_some, FieldType.names_map]

theorem shape_map (h : α → β) (form : Form α) : (form.map h).shape = form.shape := by
  cases form with
  | field type => exact congrArg Form.field (type.map_map h _)
  | method parameters result =>
    simp only [shape, map, List.map_map, Option.map_map, Function.comp_def, FieldType.map_map]

end Form

/-- No name is looked up as an empty one. -/
def Named (f : String → Option String) : Prop := ∀ name new, f name = some new → new ≠ ""

def ClassName.renamed (closed : Closed f) (named : Named f) (c : ClassName) : ClassName where
  text := substitute f c.text
  nonempty := by
    unfold substitute
    cases found : f (String.ofList c.text) with
    | none =>
      rw [Option.getD_none, String.toList_ofList]
      exact c.nonempty
    | some new =>
      rw [Option.getD_some]
      exact fun empty => named _ new found (String.toList_eq_nil_iff.mp empty)
  plain := substitute_plain closed c.plain

theorem turns_fieldType (closed : Closed f) (named : Named f) (t : FieldType ClassName) :
    Turns f t.text (t.map (ClassName.renamed closed named)).text := by
  induction t with
  | primitive type => exact turns_char (by cases type <;> decide)
  | object name => exact turns_class name.plain
  | array _ ih => exact (turns_char (c := '[') (by decide)).append ih

theorem turns_form (closed : Closed f) (named : Named f) (form : Form ClassName) :
    Turns f form.text (form.map (ClassName.renamed closed named)).text := by
  cases form with
  | field type => exact turns_fieldType closed named type
  | method parameters result =>
    have inside : Turns f (parameters.flatMap FieldType.text)
        ((parameters.map (FieldType.map (ClassName.renamed closed named))).flatMap
          FieldType.text) := by
      rw [List.flatMap_map]
      exact turns_flatMap fun t _ => turns_fieldType closed named t
    have behind : Turns f ((result.map FieldType.text).getD ['V'])
        (((result.map (FieldType.map (ClassName.renamed closed named))).map
          FieldType.text).getD ['V']) := by
      cases result with
      | none => exact turns_char (by decide)
      | some type => exact turns_fieldType closed named type
    exact ((turns_char (c := '(') (by decide)).append inside).append
      ((turns_char (c := ')') (by decide)).append behind)

theorem rename_functor (f g : String → Option String) :
    (∀ d, rename (fun _ => none) d = d ∧ rename some d = d) ∧
    (Closed f → ∀ d, rename g (rename f d) = rename (followed f g) d) ∧
    (Closed f → Named f → ∀ form : Form ClassName, ∃ new : Form ClassName,
      rename f (String.ofList form.text) = String.ofList new.text ∧ new.shape = form.shape ∧
        new.names.map ClassName.text = form.names.map fun c => substitute f c.text) := by
  have nothing : Preserves fun _ => none := fun _ _ found => nomatch found
  have same : Preserves some := fun _ _ found => (Option.some.inj found).symm
  refine ⟨fun d => ⟨rename_eq nothing d, rename_eq same d⟩, fun closed d => rename_rename closed d,
    fun closed named form => ?_⟩
  · refine ⟨form.map (ClassName.renamed closed named), (turns_form closed named form).rename_eq,
      form.shape_map _, ?_⟩
    rw [Form.names_map, List.map_map]
    rfl

/-- One class gets a longer name with an `L` in it. -/
def lengthened (name : String) : Option String := if name = "a" then some "b/L" else none

/-- The method `([La;I)La;`. -/
def arrayMethod : Form ClassName :=
  let a : ClassName := ⟨['a'], by decide, by decide⟩
  .method [.array (.object a), .primitive .int] (some (.object a))

theorem rename_functor_array :
    Closed lengthened ∧ Named lengthened ∧
      rename (fun _ => some "c") (rename lengthened "([La;ILa") =
        rename (followed lengthened fun _ => some "c") "([La;ILa" ∧
      ∃ new : Form ClassName, rename lengthened "([La;I)La;" = String.ofList new.text ∧
        new.shape = arrayMethod.shape ∧
        new.names.map ClassName.text = ["b/L".toList, "b/L".toList] := by
  have listed {name new : String} (found : lengthened name = some new) : new = "b/L" := by
    rw [lengthened] at found
    split_ifs at found
    exact (Option.some.inj found).symm
  have closed : Closed lengthened := fun name new found => by rw [listed found]; decide
  have named : Named lengthened := fun name new found => by rw [listed found]; decide
  have laws := rename_functor lengthened fun _ => some "c"
  obtain ⟨new, text, shape, names⟩ := laws.2.2 closed named arrayMethod
  exact ⟨closed, named, laws.2.1 closed _, new, text, shape, names⟩

end ModRemap.Descriptor
