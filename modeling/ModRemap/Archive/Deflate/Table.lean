import ModRemap.Archive.PrefixCode

/-! What is common to reading and writing deflated data. They come in blocks of single bytes and of
copies of what stands before; symbols stand for bytes, for the end of a block, and for ranges of
lengths and distances of copies. -/

namespace ModRemap.Deflate

open Bits

def lengthRanges : List (Nat × Nat) :=
  ranges 3 (List.replicate 4 0 ++ (List.range 6).flatMap (List.replicate 4)) ++ [(258, 0)]

def distanceRanges : List (Nat × Nat) :=
  ranges 1 (List.replicate 2 0 ++ (List.range 14).flatMap (List.replicate 2))

/-- The symbol that ends a block; those above it stand for lengths. -/
def endSymbol : Nat := 256

/-- The symbols of the code for lengths of words, in the order in which their own are given. -/
def lengthOrder : List Nat :=
  [16, 17, 18, 0, 8, 7, 9, 6, 10, 5, 11, 4, 12, 3, 13, 2, 14, 1, 15]

def commonLengths : List Nat × List Nat :=
  (List.replicate 144 8 ++ List.replicate 112 9 ++ List.replicate 24 7 ++ List.replicate 8 8,
    List.replicate 30 5)

end ModRemap.Deflate
