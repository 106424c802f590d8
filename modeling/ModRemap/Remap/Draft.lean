import ModRemap.Remap.Resolver

/-! A class while it is remapped: its growing pool, and whether anything differs yet. -/

namespace ModRemap

structure Draft where
  pool : ConstantPool
  changed : Bool

abbrev Drafting := StateT Draft (Except ClassError)

namespace Drafting

def onPool {α : Type} (change : ConstantPool.Edit α) : Drafting α := fun d =>
  match change.run d.pool with
  | (.ok a, pool) => .ok (a, { d with pool })
  | (.error e, _) => .error e

def text (index : UInt16) : Drafting String := fun d => do
  return (← d.pool.text index, d)

def internText (s : String) : Drafting UInt16 := onPool (ConstantPool.internText s)

def mark : Drafting Unit := modify fun d => { d with changed := true }

/-- The index of the new text where it differs from the old one, which stands at `index`. -/
def retext (index : UInt16) (old new : String) : Drafting UInt16 :=
  if new = old then return index
  else do
    let index ← internText new
    mark
    return index

def reading {α : Type} (r : Reader α) (s : Bytes) : Drafting (α × Bytes) := liftM (r s)

end Drafting

end ModRemap
