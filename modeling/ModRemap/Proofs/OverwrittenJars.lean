import Mathlib
import ModRemap.Proofs.JarEntries

/-! What a jar holds once entries have been replaced: the old entries under other names, then one entry
for each new name. Directories are kept by their names only. -/

namespace ModRemap

namespace Jar

variable {fs fs' : Files} {path : String} {replacements : Dict String Bytes}

/-- The names of the entries that are given, each where it first comes. -/
def names (replacements : Dict String Bytes) : List String :=
  (replacements.keys.map relative).eraseDups

/-- The last bytes that are given for a name. -/
def replacement? (replacements : Dict String Bytes) (name : String) : Option Bytes :=
  (replacements.entries.reverse.find? fun p => relative p.1 = name).map Prod.snd

/-- A directory has no bytes. -/
def emptied (e : Listed) : Listed := if isDirectoryName e.name then ⟨e.name, .ok []⟩ else e

/-- What is read under a name: what is given for it, nothing for a directory, else what was there. -/
def readsAfter (replacements : Dict String Bytes) (listed : List Listed) (name : String)
    (before : Except JarError (Option Bytes)) : Except JarError (Option Bytes) :=
  match replacement? replacements (relative name) with
  | some bytes => .ok (some bytes)
  | none =>
    if isDirectoryName (relative name) then
      .ok (if relative name ∈ listed.map Listed.name then some [] else none)
    else before

/-- The jar at a path has been built again, and nothing else has changed. -/
structure Overwritten (fs fs' : Files) (path : String) (replacements : Dict String Bytes)
    (listed : List Listed) (added : List Entry) : Prop where
  before : list fs path = .ok listed
  after : list fs' path = .ok ((listed.filter fun e => e.name ∉ names replacements).map emptied ++
    added.map Entry.listed)
  named : added.map Entry.name = names replacements
  bytes : ∀ e ∈ added, replacement? replacements e.name = some e.bytes
  reads : ∀ name, readEntry fs' path name =
    readsAfter replacements listed name (readEntry fs path name)
  elsewhere : ∃ p, fs.locate path = .ok p ∧ ∀ q ≠ p, fs'.node? q = fs.node? q

end Jar

end ModRemap
