/-! UTF-8 over lists of bytes: a strict reading, and a lenient one that puts the replacement
character in the place of each longest broken piece. -/

namespace ModRemap

abbrev Bytes := List UInt8

namespace Utf8

/-- The first character of a text, or the first broken piece, and what follows. -/
inductive Piece where
  | char (c : Char) (rest : Bytes)
  | broken (rest : Bytes)
deriving DecidableEq

def isTail (b : UInt8) : Bool := 0x80 ≤ b && b ≤ 0xBF

/-- The second bytes that may follow a lead byte; a lead byte without any stands alone. -/
def secondRange (lead : UInt8) : Option (UInt8 × UInt8) :=
  if 0xC2 ≤ lead && lead ≤ 0xDF then some (0x80, 0xBF)
  else if lead = 0xE0 then some (0xA0, 0xBF)
  else if lead = 0xED then some (0x80, 0x9F)
  else if 0xE1 ≤ lead && lead ≤ 0xEF then some (0x80, 0xBF)
  else if lead = 0xF0 then some (0x90, 0xBF)
  else if 0xF1 ≤ lead && lead ≤ 0xF3 then some (0x80, 0xBF)
  else if lead = 0xF4 then some (0x80, 0x8F)
  else none

def low (b : UInt8) : Nat := b.toNat % 64

def first (lead : UInt8) (s : Bytes) : Piece :=
  if lead < 0x80 then .char (Char.ofNat lead.toNat) s
  else match secondRange lead with
    | none => .broken s
    | some (lo, hi) =>
      match s with
      | [] => .broken []
      | b :: s₁ =>
        if lo ≤ b && b ≤ hi then
          if lead < 0xE0 then .char (Char.ofNat (lead.toNat % 32 * 64 + low b)) s₁
          else match s₁ with
            | [] => .broken []
            | c :: s₂ =>
              if isTail c then
                if lead < 0xF0 then
                  .char (Char.ofNat ((lead.toNat % 16 * 64 + low b) * 64 + low c)) s₂
                else match s₂ with
                  | [] => .broken []
                  | d :: s₃ =>
                    if isTail d then
                      .char (Char.ofNat
                        (((lead.toNat % 8 * 64 + low b) * 64 + low c) * 64 + low d)) s₃
                    else .broken s₂
              else .broken s₁
        else .broken s

def Piece.rest : Piece → Bytes
  | .char _ r => r
  | .broken r => r

def replacement : Char := '\uFFFD'

/-- Reads with as many steps as there are bytes. -/
def lossyWithin : Nat → Bytes → List Char
  | 0, _ => []
  | _, [] => []
  | n + 1, b :: s =>
    match first b s with
    | .char c r => c :: lossyWithin n r
    | .broken r => replacement :: lossyWithin n r

def decodeLossy (s : Bytes) : List Char := lossyWithin s.length s

def decodeWithin : Nat → Bytes → Option (List Char)
  | _, [] => some []
  | 0, _ => none
  | n + 1, b :: s =>
    match first b s with
    | .char c r => (decodeWithin n r).map (c :: ·)
    | .broken _ => none

/-- The characters of a well-formed text. -/
def decode? (s : Bytes) : Option (List Char) := decodeWithin s.length s

def encode (s : List Char) : Bytes := s.flatMap String.utf8EncodeChar

theorem first_rest_length_le (b : UInt8) (s : Bytes) : (first b s).rest.length ≤ s.length := by
  unfold first
  repeat' split
  all_goals simp [Piece.rest]
  all_goals omega

end Utf8

/-- The UTF-8 bytes of a text. -/
def bytesOf (s : String) : Bytes := Utf8.encode s.toList

def textOf? (b : Bytes) : Option String := (Utf8.decode? b).map String.ofList

end ModRemap
