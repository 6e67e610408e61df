import Reproduce.Bytes.LittleEndian

/-!
# The hash function

`HASH_JEN` of `uthash.h`, the default `HASH_FUNCTION`, on the bytes of a key.
-/

namespace Reproduce.UtHash

open Bytes

/-- `HASH_JEN_MIX(a, b, c)` -/
def hashJenMix (a b c : BitVec 32) : BitVec 32 × BitVec 32 × BitVec 32 :=
  let a := (a - b - c) ^^^ (c >>> 13)
  let b := (b - c - a) ^^^ (a <<< 8)
  let c := (c - a - b) ^^^ (b >>> 13)
  let a := (a - b - c) ^^^ (c >>> 12)
  let b := (b - c - a) ^^^ (a <<< 16)
  let c := (c - a - b) ^^^ (b >>> 5)
  let a := (a - b - c) ^^^ (c >>> 3)
  let b := (b - c - a) ^^^ (a <<< 10)
  let c := (c - a - b) ^^^ (b >>> 15)
  (a, b, c)

/-- `(unsigned)_hj_key[n]`, and 0 behind the key. -/
def keyByte (key : List Byte) (n : Nat) : BitVec 32 := (key.getD n 0).setWidth 32

/-- Four bytes of the key from offset `n` on. -/
def keyWord (key : List Byte) (n : Nat) : BitVec 32 :=
  keyByte key n + (keyByte key (n + 1) <<< 8) + (keyByte key (n + 2) <<< 16) +
    (keyByte key (n + 3) <<< 24)

/-- The loop over the blocks of 12 bytes, on `_hj_i`, `_hj_j` and `hashv`. -/
def hashJenBlocks : Nat → List Byte → BitVec 32 → BitVec 32 → BitVec 32 →
    List Byte × BitVec 32 × BitVec 32 × BitVec 32
  | 0, key, i, j, hashv => (key, i, j, hashv)
  | n + 1, key, i, j, hashv =>
    let (i, j, hashv) := hashJenMix (i + keyWord key 0) (j + keyWord key 4) (hashv + keyWord key 8)
    hashJenBlocks n (key.drop 12) i j hashv

/-- `HASH_JEN(key, keylen, hashv)` -/
def hashJen (key : List Byte) : BitVec 32 :=
  let (rest, i, j, hashv) :=
    hashJenBlocks (key.length / 12) key 0x9e3779b9 0x9e3779b9 0xfeedbeef
  let hashv := hashv + BitVec.ofNat 32 key.length
  -- the `switch` falls through from the last byte to the first; a byte that is missing adds 0
  let hashv := hashv + (keyByte rest 10 <<< 24) + (keyByte rest 9 <<< 16) + (keyByte rest 8 <<< 8)
  (hashJenMix (i + keyWord rest 0) (j + keyWord rest 4) hashv).2.2

end Reproduce.UtHash
