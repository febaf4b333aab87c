import DtcServer.TaskKey
import DtcServer.Bytes
/-!
# CacheHash — `CHash`: the bucket of a packed key under the old and the new hash

The buckets are one table; a key has a slot in it under each of the two hashes.
-/
namespace Dtc

open Bytes (leNat)

/-- A `char` as an `unsigned int`. -/
def charWord (b : UInt8) : UInt32 := b.toInt8.toInt32.toUInt32

/-- The loop of `HashSlot`. -/
def hashLoop : UInt32 → List UInt8 → UInt32
  | h, [] => h
  | h, b :: key =>
    let h := (h <<< 4) + charWord b
    let g := h &&& 0xF0000000
    hashLoop (if g ≠ 0 then (h ^^^ (g >>> 24)) ^^^ g else h) key

/-- `mix` -/
def hashMix (a b c : UInt32) : UInt32 × UInt32 × UInt32 :=
  let a := (a - b - c) ^^^ (c >>> 13)
  let b := (b - c - a) ^^^ (a <<< 8)
  let c := (c - a - b) ^^^ (b >>> 13)
  let a := (a - b - c) ^^^ (c >>> 12)
  let b := (b - c - a) ^^^ (a <<< 16)
  let c := (c - a - b) ^^^ (b >>> 5)
  let a := (a - b - c) ^^^ (c >>> 3)
  let b := (b - c - a) ^^^ (a <<< 10)
  let c := (c - a - b) ^^^ (b >>> 15)
  (a, b, c)

/-- Four `char`s added up, the first lowest. -/
def charSum (k0 k1 k2 k3 : UInt8) : UInt32 :=
  charWord k0 + (charWord k1 <<< 8) + (charWord k2 <<< 16) + (charWord k3 <<< 24)

/-- The loop of `new_hash` over twelve bytes at a time, and its end. -/
def newHashLoop (length a b c : UInt32) : List UInt8 → UInt32
  | k0 :: k1 :: k2 :: k3 :: k4 :: k5 :: k6 :: k7 :: k8 :: k9 :: k10 :: k11 :: rest =>
    let m := hashMix (a + charSum k0 k1 k2 k3) (b + charSum k4 k5 k6 k7) (c + charSum k8 k9 k10 k11)
    newHashLoop length m.1 m.2.1 m.2.2 rest
  | last =>
    let k (i : Nat) : UInt8 := last.getD i 0
    -- the lowest byte of `c` is left to the length
    (hashMix (a + charSum (k 0) (k 1) (k 2) (k 3)) (b + charSum (k 4) (k 5) (k 6) (k 7))
      (c + length + charSum 0 (k 8) (k 9) (k 10))).2.2

def newHash (key : List UInt8) : UInt32 :=
  newHashLoop (UInt32.ofNat key.length) 0x9e3779b9 0x9e3779b9 0x48545443 key

/-- `CHash`: the number of buckets and the size of the keys, 0 for a size in the key's first byte. -/
structure CHash where
  hhSize : Nat
  hhFixedsize : Nat
  hhSize_pos : 0 < hhSize

namespace CHash

variable (h : CHash)

def keyBytes (key : List UInt8) : List UInt8 :=
  if h.hhFixedsize ≠ 0 then key.take h.hhFixedsize else key.tail.take (key.headD 0).toNat

/-- A key of one, two or four bytes is a number, any other goes through a hash function. -/
def slotWith (hash : List UInt8 → UInt32) (key : List UInt8) : Fin h.hhSize :=
  let bytes := h.keyBytes key
  let value := if bytes.length = 1 ∨ bytes.length = 2 ∨ bytes.length = 4 then leNat bytes.length bytes
    else (hash bytes).toNat
  ⟨value % h.hhSize, Nat.mod_lt _ h.hhSize_pos⟩

def hashSlot (key : List UInt8) : Fin h.hhSize := h.slotWith (hashLoop 0) key

def newHashSlot (key : List UInt8) : Fin h.hhSize := h.slotWith newHash key

def slot {keySize : Nat} (newhash : Bool) (key : PackedKey keySize) : Fin h.hhSize :=
  if newhash then h.newHashSlot key.bytes else h.hashSlot key.bytes

end CHash

end Dtc
