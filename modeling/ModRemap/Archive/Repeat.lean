import ModRemap.Text.Utf8

/-! Copies of what stands before. Packed data tell how far back a copy starts and how long it is;
a copy may run into what it appends itself. -/

namespace ModRemap

/-- Appends so many bytes, each the one at a distance before the end. Zeros stand before the
data. -/
def repeatBack (distance : Nat) : Nat → Array UInt8 → Array UInt8
  | 0, out => out
  | n + 1, out =>
    repeatBack distance n
      (out.push (if out.size < distance then 0 else out.getD (out.size - distance) 0))

end ModRemap
