import ModRemap.Archive.Zip.Basic

/-! Where the central directory of a zip file is. The end record, found from the back, leads to it;
where a locator stands before the end record, a wide end record does. -/

namespace ModRemap.Zip

/-- Where the central directory starts, how many entries it has, and by how much all positions are
shifted because of data before the archive. -/
structure Layout where
  start : Nat
  count : Nat
  shift : Nat
deriving DecidableEq, Repr

structure EndRecord where
  disk : Nat
  startDisk : Nat
  count : Nat
  total : Nat
  size : Nat
  offset : Nat
  comment : Nat
deriving DecidableEq, Repr

/-- The last place of the end signature that leaves room for the record; a comment of at most 65535
bytes follows it. -/
def findEnd? (s : Bytes) : Option Nat := do
  let pos ← ((positions endSignature 0 s).filter fun i => i + 22 ≤ s.length).getLast?
  if pos + 22 + 65535 < s.length then none else return pos

def endRecord? (s : Bytes) (pos : Nat) : Option EndRecord := do
  let comment ← u2At s (pos + 20)
  if s.length < pos + 22 + comment then none
  return {
    disk := ← u2At s (pos + 4)
    startDisk := ← u2At s (pos + 6)
    count := ← u2At s (pos + 8)
    total := ← u2At s (pos + 10)
    size := ← u4At s (pos + 12)
    offset := ← u4At s (pos + 16)
    comment }

/-- A field at its largest value may stand for a larger one. -/
def EndRecord.isFull (e : EndRecord) : Bool :=
  [e.disk, e.startDisk, e.count, e.total].any (· = 0xFFFF) ||
    [e.size, e.offset].any (· = 0xFFFFFFFF)

/-- The locator ends where the end record would begin if nothing but its comment followed it. -/
def locator? (s : Bytes) (e : EndRecord) : Option Nat := do
  if s.length < 42 + e.comment then none
  let pos := s.length - (42 + e.comment)
  if (← u4At s pos) = locatorSignature then return pos else none

/-- The directory ends at the end record, so that its recorded place shows the shift. -/
def EndRecord.layout? (e : EndRecord) (pos : Nat) : Option Layout :=
  if pos < e.size + e.offset then none
  else
    let shift := pos - e.size - e.offset
    some ⟨e.offset + shift, e.count, shift⟩

/-- The wide end record is looked for from its recorded place on, up to the locator. -/
def wideLayout? (s : Bytes) (pos : Nat) (e : EndRecord) (locator : Nat) : Option Layout := do
  let disk ← u4At s (locator + 4)
  let recorded ← u8At s (locator + 8)
  if !e.isFull && e.disk ≠ disk then none
  let found ← (positions wideEndSignature recorded (s.drop recorded)).head?
  if pos < found + 60 then none
  let shift := found - recorded
  if (← u4At s (found + 16)) ≠ (← u4At s (found + 20)) then none
  let start := (← u8At s (found + 48)) + shift
  if 1 <<< 63 ≤ start then none
  return ⟨start, ← u8At s (found + 32), shift⟩

def layout? (s : Bytes) : Option Layout := do
  let pos ← findEnd? s
  let e ← endRecord? s pos
  if !e.isFull && e.disk ≠ e.startDisk then none
  match locator? s e with
  | none => e.layout? pos
  | some locator => wideLayout? s pos e locator

end ModRemap.Zip
