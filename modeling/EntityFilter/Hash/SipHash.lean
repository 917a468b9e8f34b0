/-!
# SipHash-1-3

A keyed hash of a list of bytes: one round per block of eight bytes and three at the end.  The
blocks are read with the least significant byte first, and the last block carries the number of
bytes modulo 256 in its top byte.
-/

namespace EntityFilter.SipHash

/-- The four words of the state. -/
structure State where
  v0 : UInt64
  v1 : UInt64
  v2 : UInt64
  v3 : UInt64
  deriving DecidableEq

namespace State

/-- Rotate a word to the left. -/
def rotate (x : UInt64) (n : UInt64) : UInt64 := (x <<< n) ||| (x >>> (64 - n))

/-- The state for a key of two words. -/
def init (k0 k1 : UInt64) : State where
  v0 := k0 ^^^ 0x736f6d6570736575
  v1 := k1 ^^^ 0x646f72616e646f6d
  v2 := k0 ^^^ 0x6c7967656e657261
  v3 := k1 ^^^ 0x7465646279746573

/-- One round of mixing. -/
def round (s : State) : State :=
  let v0 := s.v0 + s.v1
  let v1 := rotate s.v1 13 ^^^ v0
  let v0 := rotate v0 32
  let v2 := s.v2 + s.v3
  let v3 := rotate s.v3 16 ^^^ v2
  let v0 := v0 + v3
  let v3 := rotate v3 21 ^^^ v0
  let v2 := v2 + v1
  let v1 := rotate v1 17 ^^^ v2
  let v2 := rotate v2 32
  { v0, v1, v2, v3 }

/-- Take in one block. -/
def absorb (s : State) (block : UInt64) : State :=
  let t := round { s with v3 := s.v3 ^^^ block }
  { t with v0 := t.v0 ^^^ block }

/-- Three rounds, and the words combined. -/
def finish (s : State) : UInt64 :=
  let t := round (round (round { s with v2 := s.v2 ^^^ 0xff }))
  t.v0 ^^^ t.v1 ^^^ t.v2 ^^^ t.v3

end State

/-- The word that up to eight bytes write, the first one least significant. -/
def word (bytes : List UInt8) : UInt64 :=
  bytes.foldr (fun b w => w <<< 8 ||| b.toUInt64) 0

/-- Take in the bytes block by block; `size` counts all of them. -/
def blocks (size : Nat) (s : State) : List UInt8 → State
  | b0 :: b1 :: b2 :: b3 :: b4 :: b5 :: b6 :: b7 :: rest =>
    blocks size (s.absorb (word [b0, b1, b2, b3, b4, b5, b6, b7])) rest
  | rest => s.absorb (word rest ||| (UInt64.ofNat size <<< 56))

/-- The hash of some bytes under a key of two words. -/
def hash (k0 k1 : UInt64) (bytes : List UInt8) : UInt64 :=
  (blocks bytes.length (State.init k0 k1) bytes).finish

end EntityFilter.SipHash
