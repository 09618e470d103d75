import Go2Cloud.Lib.Bytes

/-! Block hash (client/hash.c) on a little-endian host. -/
namespace Go2Cloud.Hash
open Bytes

def hashMul : UInt64 := 0xc2b4d1b3d54d51c2
def hashRot : UInt64 := 0x9e3779b586c04815
def hashInitShort : UInt64 := 0x27d4eb2f165667c5
def hashInitA : UInt64 := 0x60ea27eeadc0b5d6
def hashInitB : UInt64 := 0x61c8864e7a143579
def hashInitC : UInt64 := 0xc2b2ae3d27d4eb4f
def hashXorConst : UInt64 := 0x85ebca77c2b2ae63

def fmix64 (h : UInt64) : UInt64 :=
  let h := h ^^^ (h >>> 33)
  let h := h * 0xff51afd7ed558ccd
  let h := h ^^^ (h >>> 33)
  let h := h * 0xc4ceb9fe1a85ec53
  h ^^^ (h >>> 33)

structure Lanes where
  hash : UInt64
  stateB : UInt64
  stateC : UInt64
  stateD : UInt64

def word (data : List UInt8) (i : Nat) : UInt64 :=
  -- the i-th aligned 64-bit word of the data
  UInt64.ofNat (beValue ((data.drop (8 * i)).take 8).reverse)

def mixLane (lane input : UInt64) : UInt64 :=
  let lane := lane + input * hashMul
  ((lane <<< 31) ||| (lane >>> 33)) * hashRot

def mixWords (data : List UInt8) (lanes : Lanes) (i : Nat) : Lanes :=
  ⟨mixLane lanes.hash (word data (4 * i)), mixLane lanes.stateB (word data (4 * i + 1)),
    mixLane lanes.stateC (word data (4 * i + 2)), mixLane lanes.stateD (word data (4 * i + 3))⟩

def finish (result lane : UInt64) : UInt64 := (result ^^^ fmix64 lane) * hashRot + hashXorConst

/-- The word limit of the main loop stops four words early when the length is a
multiple of eight; `p + 3 < end` then runs a quarter of the limit times. -/
def hashBlock (data : List UInt8) (seed : UInt64) : UInt64 :=
  let len := data.length
  if len < 32 then UInt64.ofNat len + hashInitShort + seed
  else
    let limit := len / 8 - if len % 8 = 0 then 4 else 0
    let start : Lanes := ⟨seed + hashInitA, seed + hashInitB, seed + hashInitC, seed⟩
    let lanes := (List.range (limit / 4)).foldl (mixWords data) start
    let result := finish (finish (finish (finish hashXorConst lanes.hash) lanes.stateB)
      lanes.stateC) lanes.stateD
    result + UInt64.ofNat len

def blockSeed (offset : Int64) : UInt64 := offset.toUInt64 &&& 0xffffffff

end Go2Cloud.Hash
