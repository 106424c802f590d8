import ModRemap.Text.Utf8

/-! The CRC-32 checksum: the remainder of a polynomial division, lowest bit first. -/

namespace ModRemap.Crc32

def polynomial : UInt32 := 0xEDB88320

def shift (crc : UInt32) : UInt32 :=
  if crc &&& 1 = 1 then (crc >>> 1) ^^^ polynomial else crc >>> 1

def step (crc : UInt32) (b : UInt8) : UInt32 :=
  (List.range 8).foldl (fun c _ => shift c) (crc ^^^ b.toUInt32)

def checksum (s : Bytes) : UInt32 := s.foldl step 0xFFFFFFFF ^^^ 0xFFFFFFFF

end ModRemap.Crc32
