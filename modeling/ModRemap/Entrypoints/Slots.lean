import ModRemap.Dict

/-! Slots for what is made at most once. A slot is empty until something that has been made for it is
stored, and keeps that. What happens to the slots is put on record, which nothing here depends on. -/

namespace ModRemap

/-- What happens to a slot. -/
inductive SlotEvent (α : Type) where
  /-- A construction for the slot starts. -/
  | started
  /-- A construction ends without anything that could be stored. -/
  | failed (cause : String)
  | made (value : α)
  | stored (value : α)
  /-- Whoever has asked for the value of the slot gets it. -/
  | given (value : α)
deriving DecidableEq, Repr

structure Slots (κ α : Type) where
  values : Dict κ α := ∅
  /-- What has happened, the latest first. -/
  log : List (κ × SlotEvent α) := []
deriving DecidableEq, Repr

namespace Slots

variable {κ α : Type}

def record (s : Slots κ α) (k : κ) (e : SlotEvent α) : Slots κ α := { s with log := (k, e) :: s.log }

variable [DecidableEq κ]

def value? (s : Slots κ α) (k : κ) : Option α := s.values.get? k

def store (s : Slots κ α) (k : κ) (a : α) : Slots κ α :=
  { s with values := s.values.insert k a }.record k (.stored a)

/-- Takes what has been made for a slot, and gives the value of the slot. A value that came to be
during the construction is kept in favour of the new one. -/
def keep (s : Slots κ α) (k : κ) (a : α) : Slots κ α × α :=
  let s := s.record k (.made a)
  match s.value? k with
  | some first => (s.record k (.given first), first)
  | none => ((s.store k a).record k (.given a), a)

end Slots

end ModRemap
