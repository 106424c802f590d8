import ModRemap.Text.Split
import ModRemap.Text.Utf8

/-! Manifests: a main section, then a section for each signed entry. Blank lines end sections. -/

namespace ModRemap.Manifest

open Text

def isLineEnd (c : Char) : Bool := c = '\n' || c = '\r'

/-- A line without the carriage returns and line feeds at its end. -/
def content (line : List Char) : List Char := dropWhileEnd isLineEnd line

def isEmptyLine (line : List Char) : Bool := (content line).isEmpty

/-- A line that starts with a blank continues the one before. -/
def continues (line : List Char) : Bool := (content line).head? = some ' '

/-- Each section with the blank line that ends it; the last one may be empty. -/
def sections : List (List Char) → List (List (List Char))
  | [] => [[]]
  | line :: lines =>
    if isEmptyLine line then [line] :: sections lines
    else match sections lines with
      | [] => [[line]]
      | section₁ :: others => (line :: section₁) :: others

def isDigest (line : List Char) : Bool :=
  match cut? ':' (content line) with
  | none => false
  | some (key, _) => (dropEnd? "-digest".toList (lower (trim key))).isSome

/-- Drops digest attributes, each with the lines that continue it. The flag tells whether the
attribute before was dropped. -/
def withoutDigests : Bool → List (List Char) → List (List Char)
  | _, [] => []
  | dropping, line :: lines =>
    let drop := if continues line then dropping else isDigest line
    if drop then withoutDigests drop lines else line :: withoutDigests drop lines

def isName (line : List Char) : Bool := (dropStart? "name:".toList (lower (content line))).isSome

/-- A line that gives a section a reason to stay. -/
def isAttribute (line : List Char) : Bool :=
  !isEmptyLine line && !continues line && !isName line

def keptSection (lines : List (List Char)) : List (List Char) :=
  let kept := withoutDigests false lines
  if kept.any isAttribute then kept else []

/-- The main section stays as it is. -/
def stripChars (s : List Char) : List Char :=
  match sections (linesKept s) with
  | [] => []
  | main :: others => main.flatten ++ (others.flatMap keptSection).flatten

/-- Drops the digests of single entries, which no longer fit once entries change. -/
def stripDigests (manifest : Bytes) : Bytes :=
  Utf8.encode (stripChars (Utf8.decodeLossy manifest))

end ModRemap.Manifest
