import ModRemap.Archive.Zip.Reader
import ModRemap.Archive.Zip.Writer

/-! What a file holds: bytes, or an archive. An archive is kept as its entries, because little
depends on how they are laid out; its bytes are made only where they are asked for. -/

namespace ModRemap

inductive Content where
  | data (bytes : Bytes)
  | archive (entries : List Entry)
  /-- An archive that has not been closed yet. -/
  | begun (entries : List Entry)
deriving DecidableEq, Inhabited, Repr

namespace Content

def bytes : Content → Bytes
  | .data b => b
  | .archive entries => Zip.write entries
  | .begun entries => Zip.applyAll [] (Zip.opening entries)

/-- The entries, where the content is an archive. -/
def list : Content → Except ArchiveFault (List Listed)
  | .archive entries => .ok (entries.map fun e => ⟨e.name, .ok e.bytes⟩)
  | c => Zip.read c.bytes

/-- Goes on writing an archive, of which `old` has been written. Where something else has been
written in the meantime, it stays around what is written now. -/
def extend (old new : List Entry) (c : Content) : Content :=
  if c = .begun old then .begun new
  else .data (Zip.applyAll c.bytes ((Zip.opening new).drop (Zip.opening old).length))

/-- Closes an archive, of which `old` has been written. -/
def close (old new : List Entry) (c : Content) : Content :=
  if c = .begun old then .archive new
  else
    let patches := Zip.opening new ++ Zip.closing new
    .data (Zip.applyAll c.bytes (patches.drop (Zip.opening old).length))

end Content

end ModRemap
