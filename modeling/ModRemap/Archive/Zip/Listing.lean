import ModRemap.Archive.CodePage
import ModRemap.Archive.Zip.Layout

/-! The central directory of a zip file, which lists the entries and where their data are. -/

namespace ModRemap.Zip

/-- What the central directory tells of an entry. -/
structure Listing where
  name : String
  encrypted : Bool
  method : Nat
  crc : Nat
  packed : Nat
  size : Nat
  header : Nat
  /-- An extra field tells how the data are protected. -/
  guarded : Bool := false
deriving DecidableEq, Repr

/-- A field at its largest value is replaced by the next eight bytes, where there are as many. -/
def widened (value : Nat) (s : Bytes) : Option (Nat × Bytes) :=
  if value = 0xFFFFFFFF then (u8At s 0).map (·, s.drop 8) else some (value, s)

/-- Takes sizes and place from a wide extra field, up to the end of the data. -/
def Listing.widen (e : Listing) (s : Bytes) : Listing × Option Bytes :=
  match widened e.size s with
  | none => (e, none)
  | some (size, s) =>
    let e := { e with size }
    match widened e.packed s with
    | none => (e, none)
    | some (packed, s) =>
      let e := { e with packed }
      match widened e.header s with
      | none => (e, none)
      | some (header, s) => ({ e with header }, some s)

/-- Version, vendor, strength and method of a protected entry; the outer `none` refuses them. -/
def Listing.protect (e : Listing) (s : Bytes) : Option (Option Listing) :=
  match u2At s 0, u2At s 2, s[4]?, u2At s 5 with
  | some version, some vendor, some strength, some method =>
    if vendor ≠ 0x4541 || !([1, 2].contains version) || !([1, 2, 3].contains strength.toNat) then
      none
    else some (some { e with method, guarded := true })
  | _, _, _, _ => some none

/-- Reads the extra fields up to the first one that is cut off. -/
def Listing.extend (e : Listing) : Nat → Bytes → Option Listing
  | 0, _ => some e
  | fuel + 1, s =>
    match u2At s 0, u2At s 2 with
    | some kind, some size =>
      let body := s.drop 4
      if kind = 0x0001 then
        match e.widen body with
        | (e, none) => some e
        | (e, some rest) => e.extend fuel (body.drop (max size (body.length - rest.length)))
      else if kind = 0x9901 then
        if size ≠ 7 then none
        else do
          match ← e.protect body with
          | none => some e
          | some e => e.extend fuel (body.drop 14)
      else e.extend fuel (body.drop size)
    | _, _ => some e

def sealedMethod : Nat := 99

/-- The entry that is listed at a position, and the position of the next one. -/
def listing? (s : Bytes) (shift pos : Nat) : Option (Listing × Nat) := do
  if (← u4At s pos) ≠ directorySignature then none
  let flags ← u2At s (pos + 8)
  let nameSize ← u2At s (pos + 28)
  let extraSize ← u2At s (pos + 30)
  let commentSize ← u2At s (pos + 32)
  let name ← slice? s (pos + 46) nameSize
  let extra ← slice? s (pos + 46 + nameSize) extraSize
  let next := pos + 46 + nameSize + extraSize + commentSize
  if s.length < next then none
  let listed : Listing := {
    name :=
      if flags.testBit 11 then String.ofList (Utf8.decodeLossy name) else CodePage.decode name
    encrypted := flags.testBit 0
    method := ← u2At s (pos + 10)
    crc := ← u4At s (pos + 16)
    packed := ← u4At s (pos + 20)
    size := ← u4At s (pos + 24)
    header := ← u4At s (pos + 42) }
  let listed ← listed.extend extraSize extra
  if listed.method = sealedMethod && !listed.guarded then none
  if 1 <<< 64 ≤ listed.header + shift then none
  return ({ listed with header := listed.header + shift }, next)

def listings? (s : Bytes) (shift : Nat) : Nat → Nat → Option (List Listing)
  | 0, _ => some []
  | n + 1, pos => do
    let (entry, next) ← listing? s shift pos
    return entry :: (← listings? s shift n next)

end ModRemap.Zip
