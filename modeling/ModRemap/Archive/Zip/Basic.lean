import ModRemap.Text.Utf8

/-! Numbers in zip files, lowest byte first, and the signatures that records start with. -/

namespace ModRemap.Zip

def u2At (s : Bytes) (i : Nat) : Option Nat := do
  return (← s[i]?).toNat + 0x100 * (← s[i + 1]?).toNat

def u4At (s : Bytes) (i : Nat) : Option Nat := do
  return (← u2At s i) + 0x10000 * (← u2At s (i + 2))

def u8At (s : Bytes) (i : Nat) : Option Nat := do
  return (← u4At s i) + 0x100000000 * (← u4At s (i + 4))

def ofU2 (n : Nat) : Bytes := [UInt8.ofNat n, UInt8.ofNat (n / 0x100)]

def ofU4 (n : Nat) : Bytes := ofU2 n ++ ofU2 (n / 0x10000)

def localSignature : Nat := 0x04034B50

def directorySignature : Nat := 0x02014B50

def endSignature : Nat := 0x06054B50

def wideEndSignature : Nat := 0x06064B50

def locatorSignature : Nat := 0x07064B50

/-- The positions of a signature, counted from the given one on. -/
def positions (signature : Nat) : Nat → Bytes → List Nat
  | _, [] => []
  | i, b :: s =>
    if u4At (b :: s) 0 = some signature then i :: positions signature (i + 1) s
    else positions signature (i + 1) s

def slice? (s : Bytes) (start size : Nat) : Option Bytes :=
  if start + size ≤ s.length then some ((s.drop start).take size) else none

end ModRemap.Zip
