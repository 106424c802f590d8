/-! JSON documents as trees. Numbers keep their digits and objects the order and repetition of
their members. -/

namespace ModRemap

/-- A number as it is written. -/
structure NumberLiteral where
  negative : Bool
  whole : List Char
  fraction : List Char
  /-- Whether the exponent is negative, and its digits. -/
  exponent : Option (Bool × List Char)
deriving DecidableEq, Repr

/-- Trees whose strings have type `τ`. -/
inductive JsonTree (τ : Type) where
  | null
  | bool (b : Bool)
  | number (n : NumberLiteral)
  | string (s : τ)
  | array (items : List (JsonTree τ))
  | object (members : List (τ × JsonTree τ))
deriving Inhabited

/-- A well-formed document. A string is `none` when it does not denote a text, because of an
unpaired surrogate or of bytes that are not UTF-8. -/
abbrev RawJson := JsonTree (Option String)

abbrev Json := JsonTree String

namespace NumberLiteral

def ofNat (n : Nat) : NumberLiteral := ⟨false, Nat.toDigits 10 n, [], none⟩

def digit (c : Char) : Nat := c.toNat - '0'.toNat

def natOf (digits : List Char) : Nat := digits.foldl (fun n c => n * 10 + digit c) 0

/-! ### The range of double precision

The digits are collected into a word of 64 bits as long as they fit, which is multiplied by a power
of ten. Both factors and the product are rounded. -/

/-- The nearest number with at most 53 significant bits; a tie goes to the even one. -/
def round53 (n : Nat) : Nat :=
  let excess := n.log2 + 1 - 53
  let q := n >>> excess
  let r := n % (1 <<< excess)
  let half := (1 <<< excess) / 2
  (if excess ≠ 0 ∧ (half < r ∨ r = half ∧ q % 2 = 1) then q + 1 else q) <<< excess

/-- Adds digits to a word while they fit; the number of those added, and the rest. -/
def collect (word : Nat) : List Char → Nat × Nat × List Char
  | [] => (word, 0, [])
  | c :: s =>
    if word * 10 + digit c < 1 <<< 64 then
      let (w, n, rest) := collect (word * 10 + digit c) s
      (w, n + 1, rest)
    else (word, 0, c :: s)

def isFinite (n : NumberLiteral) : Bool :=
  let (w₁, _, dropped) := collect 0 n.whole
  let (word, added, _) := collect w₁ n.fraction
  let written : Int := match n.exponent with
    | none => 0
    | some (true, ds) => -(natOf ds : Int)
    | some (false, ds) => natOf ds
  let e : Int := (dropped.length : Int) - added + written
  if e < 0 then true
  else if 308 < e then word = 0
  else round53 word * round53 (Nat.pow 10 e.toNat) < (1 <<< 1024) - (1 <<< 970)

end NumberLiteral

namespace JsonTree

variable {τ υ : Type}

mutual

/-- How deep arrays and objects nest. -/
def depth : JsonTree τ → Nat
  | .array items => depthItems items + 1
  | .object members => depthMembers members + 1
  | _ => 0

def depthItems : List (JsonTree τ) → Nat
  | [] => 0
  | t :: ts => max t.depth (depthItems ts)

def depthMembers : List (τ × JsonTree τ) → Nat
  | [] => 0
  | (_, t) :: ts => max t.depth (depthMembers ts)

end

mutual

def allNumbers (p : NumberLiteral → Bool) : JsonTree τ → Bool
  | .number n => p n
  | .array items => allNumbersItems p items
  | .object members => allNumbersMembers p members
  | _ => true

def allNumbersItems (p : NumberLiteral → Bool) : List (JsonTree τ) → Bool
  | [] => true
  | t :: ts => t.allNumbers p && allNumbersItems p ts

def allNumbersMembers (p : NumberLiteral → Bool) : List (τ × JsonTree τ) → Bool
  | [] => true
  | (_, t) :: ts => t.allNumbers p && allNumbersMembers p ts

end

mutual

/-- Changes every string, unless the change fails for one. -/
def mapStrings? (f : τ → Option υ) : JsonTree τ → Option (JsonTree υ)
  | .null => some .null
  | .bool b => some (.bool b)
  | .number n => some (.number n)
  | .string s => (f s).map .string
  | .array items => (mapStringsItems f items).map .array
  | .object members => (mapStringsMembers f members).map .object

def mapStringsItems (f : τ → Option υ) : List (JsonTree τ) → Option (List (JsonTree υ))
  | [] => some []
  | t :: ts => do return (← t.mapStrings? f) :: (← mapStringsItems f ts)

def mapStringsMembers (f : τ → Option υ) :
    List (τ × JsonTree τ) → Option (List (υ × JsonTree υ))
  | [] => some []
  | (k, t) :: ts => do return (← f k, ← t.mapStrings? f) :: (← mapStringsMembers f ts)

end

end JsonTree

/-- The document when all of its strings denote texts. -/
def RawJson.texts? (t : RawJson) : Option Json := t.mapStrings? id

/-- The document as a value, which nests at most 127 deep and has no number beyond the doubles. -/
def RawJson.value? (t : RawJson) : Option Json :=
  if t.depth ≤ 127 && t.allNumbers NumberLiteral.isFinite then t.texts? else none

/-- The last member of an object with this key. -/
def Json.get? (key : String) : Json → Option Json
  | .object members => (members.reverse.find? fun p => p.1 = key).map Prod.snd
  | _ => none

end ModRemap
