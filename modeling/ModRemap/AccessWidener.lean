import ModRemap.Mapping.Index
import ModRemap.Text.Utf8

/-! Access wideners: a header line that names a namespace, then one declaration per line. Comments
start with `#`. -/

namespace ModRemap.AccessWidener

open Text

inductive Version where
  | v1
  | v2
deriving DecidableEq, Repr

inductive Fault where
  | notUtf8
  | missingHeader
  | badHeader
  | expectedHeader (found : String)
  | unsupportedVersion (version : String)
  | transitiveInV1
  | unknownAccess (access : String)
  | missingKind
  | classArity
  | mutableClass
  | memberArity (kind : String)
  | mutableMethod
  | extendableField
  | unknownKind (kind : String)
deriving DecidableEq, Repr

def Fault.message : Fault → String
  | .notUtf8 => "file is not valid UTF-8"
  | .missingHeader => "missing accessWidener header"
  | .badHeader => "header must be 'accessWidener <version> <namespace>'"
  | .expectedHeader found => s!"expected accessWidener header, found '{found}'"
  | .unsupportedVersion version => s!"unsupported version '{version}'"
  | .transitiveInV1 => "transitive access requires a v2 header"
  | .unknownAccess access => s!"unknown access '{access}'"
  | .missingKind => "missing target kind"
  | .classArity => "class declarations take exactly one class name"
  | .mutableClass => "classes cannot be made mutable"
  | .memberArity kind => s!"{kind} declarations take an owner, a name and a descriptor"
  | .mutableMethod => "methods cannot be made mutable"
  | .extendableField => "fields cannot be made extendable"
  | .unknownKind kind => s!"unknown target kind '{kind}'"

inductive Error where
  | namespaceMismatch (expected found : String)
  | malformed (line : Nat) (fault : Fault)
deriving DecidableEq, Repr

def Error.message : Error → String
  | .namespaceMismatch expected found =>
    s!"access widener namespace '{found}' does not match the remap source namespace '{expected}'"
  | .malformed line fault => s!"access widener line {line}: {fault.message}"

def tabbed (tokens : List String) : String := "\t".intercalate tokens

/-- The version, and the header for the target namespace. -/
def readHeader (ix : MappingIndex) (line : Nat) : List String → Except Error (Version × List String)
  | [magic, version, ns] =>
    if magic ≠ "accessWidener" then .error (.malformed line (.expectedHeader magic))
    else do
      let v ← if version = "v1" then .ok Version.v1 else if version = "v2" then .ok .v2
        else .error (.malformed line (.unsupportedVersion version))
      if ns ≠ ix.source then .error (.namespaceMismatch ix.source ns)
      else .ok (v, [magic, version, ix.target])
  | _ => .error (.malformed line .badHeader)

/-- The access without the word that makes it apply to dependents. -/
def baseAccess (version : Version) (access : String) : Except Fault String :=
  match dropStart? "transitive-".toList access.toList with
  | none => .ok access
  | some base => if version = .v1 then .error .transitiveInV1 else .ok (String.ofList base)

def remapClass (ix : MappingIndex) (access base : String) :
    List String → Except Fault (List String)
  | [name] =>
    if base = "mutable" then .error .mutableClass
    else .ok [access, "class", (ix.mapClass name).getD name]
  | _ => .error .classArity

def remapMember (ix : MappingIndex) (access base word : String) (kind : MemberKind) :
    List String → Except Fault (List String)
  | [owner, name, descriptor] =>
    if kind = .method ∧ base = "mutable" then .error .mutableMethod
    else if kind = .field ∧ base = "extendable" then .error .extendableField
    else .ok [access, word, (ix.mapClass owner).getD owner,
      (ix.mapMember kind owner name descriptor).getD name, ix.mapDescriptor descriptor]
  | _ => .error (.memberArity word)

/-- The tokens of a declaration for the target namespace. -/
def remapDeclaration (ix : MappingIndex) (version : Version) :
    List String → Except Fault (List String)
  | [] => .error .missingKind
  | access :: rest => do
    let base ← baseAccess version access
    if base ≠ "accessible" ∧ base ≠ "extendable" ∧ base ≠ "mutable" then
      .error (.unknownAccess access)
    else match rest with
      | [] => .error .missingKind
      | kind :: operands =>
        if kind = "class" then remapClass ix access base operands
        else if kind = "method" then remapMember ix access base kind .method operands
        else if kind = "field" then remapMember ix access base kind .field operands
        else .error (.unknownKind kind)

/-- The part of a line before its comment, and the comment with its `#`. -/
def splitComment (line : List Char) : List Char × List Char :=
  (line.takeWhile (· ≠ '#'), line.dropWhile (· ≠ '#'))

def withComment (comment : List Char) (tokens : List String) : String :=
  if comment.isEmpty then tabbed tokens else tabbed (tokens ++ [String.ofList comment])

def remapLine (ix : MappingIndex) (number : Nat) (version : Option Version) (raw : List Char) :
    Except Error (Option Version × String) :=
  let line := (dropEnd? ['\r'] raw).getD raw
  let (content, comment) := splitComment line
  let tokens := (words content).map String.ofList
  if tokens.isEmpty then .ok (version, String.ofList line)
  else match version with
    | none => do
      let (v, tokens) ← readHeader ix number tokens
      return (some v, withComment comment tokens)
    | some v =>
      match remapDeclaration ix v tokens with
      | .ok tokens => .ok (version, withComment comment tokens)
      | .error fault => .error (.malformed number fault)

/-- The lines from `number` on, where a version is known once the header has been read. -/
def remapLines (ix : MappingIndex) :
    Nat → Option Version → List (List Char) → Except Error (List String)
  | _, none, [] => .error (.malformed 1 .missingHeader)
  | _, some _, [] => .ok []
  | number, version, raw :: lines => do
    let (version, line) ← remapLine ix number version raw
    return line :: (← remapLines ix (number + 1) version lines)

/-- The access widener for the target namespace. -/
def remap (ix : MappingIndex) (bytes : Bytes) : Except Error Bytes :=
  match Utf8.decode? bytes with
  | none => .error (.malformed 1 .notUtf8)
  | some text => do
    let lines ← remapLines ix 1 none (fields '\n' text)
    return bytesOf ("\n".intercalate lines)

end ModRemap.AccessWidener
