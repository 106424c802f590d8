import ModRemap.Text.Utf8

/-! Finding what stands before. Places where the same three bytes may begin are kept in chains, the
newest place first. -/

namespace ModRemap.Deflate

/-- How many bytes are at hand. -/
def reach : Nat := 0x8000

def longestCopy : Nat := 258

def longestAt (data : Array UInt8) (pos : Nat) : Nat := min longestCopy (data.size - pos)

/-- How far back a copy to a position may start: the bytes that it may cover count as well. -/
def reachFrom (data : Array UInt8) (pos : Nat) : Nat := min pos (reach - longestAt data pos)

def byteAt (data : Array UInt8) (i : Nat) : Nat := (data.getD i 0).toNat

/-- The newest place of each key, and the place before each place. Places are kept in sixteen bits,
and there is room for those within reach. -/
structure Chains where
  newest : Array Nat
  before : Array Nat
deriving DecidableEq, Repr

namespace Chains

def empty : Chains := ⟨Array.replicate 0x8000 0, Array.replicate reach 0⟩

/-- The key of the three bytes at a place; different ones may share a key. -/
def key (data : Array UInt8) (i : Nat) : Nat :=
  (byteAt data i * 0x400 ^^^ byteAt data (i + 1) * 0x20 ^^^ byteAt data (i + 2)) % 0x8000

/-- Three bytes that are cut off have no place in the chains. -/
def insert (c : Chains) (data : Array UInt8) (i : Nat) : Chains :=
  if data.size < i + 3 then c
  else
    let ⟨newest, before⟩ := c
    let key := key data i
    let last := newest.getD key 0
    ⟨newest.setIfInBounds key (i % 0x10000), before.setIfInBounds (i % reach) last⟩

def insertAll (c : Chains) (data : Array UInt8) (start count : Nat) : Chains :=
  (List.range count).foldl (fun c i => c.insert data (start + i)) c

end Chains

/-- What stands at so many bytes before. -/
structure Copy where
  length : Nat
  distance : Nat
deriving DecidableEq, Repr

/-- How many bytes agree at two places, up to a limit. -/
def agreement (data : Array UInt8) (i j : Nat) : Nat → Nat
  | 0 => 0
  | limit + 1 =>
    if byteAt data i = byteAt data j then agreement data (i + 1) (j + 1) limit + 1 else 0

/-- How a look at a few places of a chain ends. -/
inductive Look where
  | ended
  | missed (place : Nat)
  | found (place distance : Nat)
deriving DecidableEq, Repr

/-- Looks for a place where the last byte of a copy of this length agrees, and the next one. A chain
ends at the first byte, and where it leads too far back. -/
def Chains.look (c : Chains) (data : Array UInt8) (pos furthest length : Nat) : Nat → Nat → Look
  | 0, place => .missed place
  | steps + 1, place =>
    let next := c.before.getD (place % reach) 0
    let distance := (pos % 0x10000 + 0x10000 - next) % 0x10000
    if next = 0 || distance = 0 || furthest < distance then .ended
    else if agreement data (pos + length - 1) (pos - distance + length - 1) 2 = 2 then
      .found next distance
    else look c data pos furthest length steps next

/-- Looks for longer and longer copies, three places at a time. -/
def Chains.search (c : Chains) (data : Array UInt8) (pos furthest limit : Nat) :
    Nat → Nat → Copy → Copy
  | 0, _, best => best
  | tries + 1, place, best =>
    match c.look data pos furthest best.length 3 place with
    | .ended => best
    | .missed place => search c data pos furthest limit tries place best
    | .found place distance =>
      let length := agreement data pos (pos - distance) limit
      if length ≤ best.length then search c data pos furthest limit tries place best
      else if length = limit then ⟨length, distance⟩
      else search c data pos furthest limit tries place ⟨length, distance⟩

/-- A copy that is longer than the given length, or else one of that length and distance 0. Where
the length is large already, fewer places are looked at. -/
def Chains.longer (c : Chains) (data : Array UInt8) (pos length : Nat) : Copy :=
  let limit := longestAt data pos
  if limit ≤ length then ⟨length, 0⟩
  else
    let tries := if length < 32 then 43 else 11
    c.search data pos (reachFrom data pos) limit tries pos ⟨length, 0⟩

end ModRemap.Deflate
