import ModRemap.Text.Utf8

/-! A checksum of 64 bits. Four sums run over the data side by side and are mixed at the end. -/

namespace ModRemap.Zstandard.Checksum

def prime1 : UInt64 := 0x9E3779B185EBCA87

def prime2 : UInt64 := 0xC2B2AE3D27D4EB4F

def prime3 : UInt64 := 0x165667B19E3779F9

def prime4 : UInt64 := 0x85EBCA77C2B2AE63

def prime5 : UInt64 := 0x27D4EB2F165667C5

def rotate (a n : UInt64) : UInt64 := (a <<< n) ||| (a >>> (64 - n))

/-- The number that bytes stand for, the lowest first. -/
def word : Bytes → UInt64
  | [] => 0
  | b :: s => b.toUInt64 ||| (word s <<< 8)

def round (sum input : UInt64) : UInt64 := rotate (sum + input * prime2) 31 * prime1

/-- The four sums, each of every fourth word, and what is left over. -/
def sums (a b c d : UInt64) (s : Bytes) : (UInt64 × UInt64 × UInt64 × UInt64) × Bytes :=
  if s.drop 31 = [] then ((a, b, c, d), s)
  else
    let at_ (i : Nat) : UInt64 := word ((s.drop i).take 8)
    sums (round a (at_ 0)) (round b (at_ 8)) (round c (at_ 16)) (round d (at_ 24)) (s.drop 32)
termination_by s.length
decreasing_by
  have : 31 < s.length := by
    apply Nat.lt_of_not_le
    intro h
    simp_all
  simp
  omega

def merge (h sum : UInt64) : UInt64 := (h ^^^ round 0 sum) * prime1 + prime4

/-- Mixes in what is left over: words, then half a word, then bytes. -/
def mixRest : Nat → UInt64 → Bytes → UInt64
  | 0, h, _ => h
  | fuel + 1, h, s =>
    if 8 ≤ s.length then
      mixRest fuel (rotate (h ^^^ round 0 (word (s.take 8))) 27 * prime1 + prime4) (s.drop 8)
    else if 4 ≤ s.length then
      mixRest fuel (rotate (h ^^^ (word (s.take 4) * prime1)) 23 * prime2 + prime3) (s.drop 4)
    else
      match s with
      | [] => h
      | b :: s => mixRest fuel (rotate (h ^^^ (b.toUInt64 * prime5)) 11 * prime1) s

def finish (h : UInt64) : UInt64 :=
  let h := (h ^^^ (h >>> 33)) * prime2
  let h := (h ^^^ (h >>> 29)) * prime3
  h ^^^ (h >>> 32)

def ofBytes (s : Bytes) : UInt64 :=
  let ((a, b, c, d), rest) := sums (prime1 + prime2) prime2 0 (0 - prime1) s
  let h :=
    if s.length < 32 then prime5
    else
      merge (merge (merge (merge (rotate a 1 + rotate b 7 + rotate c 12 + rotate d 18) a) b) c) d
  finish (mixRest 32 (h + UInt64.ofNat s.length) rest)

end ModRemap.Zstandard.Checksum
