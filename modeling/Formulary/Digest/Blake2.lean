import Formulary.Digest.Sha

/-!
# The digests BLAKE2b

Sixteen words are mixed in twelve rounds for each block of 128 bytes; the order of the block's words
changes from round to round.
-/

namespace Formulary.Digest.Blake2

def orders : List (List Nat) :=
  [[0, 1, 2, 3, 4, 5, 6, 7, 8, 9, 10, 11, 12, 13, 14, 15],
    [14, 10, 4, 8, 9, 15, 13, 6, 1, 12, 0, 2, 11, 7, 5, 3],
    [11, 8, 12, 0, 5, 2, 15, 13, 10, 14, 3, 6, 7, 1, 9, 4],
    [7, 9, 3, 1, 13, 12, 11, 14, 2, 6, 5, 10, 4, 0, 15, 8],
    [9, 0, 5, 7, 2, 4, 10, 15, 14, 1, 11, 12, 6, 8, 3, 13],
    [2, 12, 6, 10, 0, 11, 8, 3, 4, 13, 7, 5, 15, 14, 1, 9],
    [12, 5, 1, 15, 14, 13, 4, 10, 0, 7, 6, 3, 9, 2, 8, 11],
    [13, 11, 7, 14, 12, 1, 3, 9, 5, 0, 15, 4, 8, 6, 2, 10],
    [6, 15, 14, 9, 11, 3, 0, 8, 12, 2, 13, 7, 1, 4, 10, 5],
    [10, 2, 8, 4, 7, 6, 1, 5, 15, 11, 9, 14, 3, 12, 13, 0]]

def start : Array UInt64 := ((Sha2.roots 0).map Nat.toUInt64).toArray

/-- The columns and diagonals that are mixed in a round. -/
def paths : List (Nat × Nat × Nat × Nat) :=
  [(0, 4, 8, 12), (1, 5, 9, 13), (2, 6, 10, 14), (3, 7, 11, 15),
    (0, 5, 10, 15), (1, 6, 11, 12), (2, 7, 8, 13), (3, 4, 9, 14)]

/-- Mixes two words of a block into four words of the state. -/
def mix (v : Array UInt64) (path : Nat × Nat × Nat × Nat) (x y : UInt64) : Array UInt64 :=
  let (i, j, k, l) := path
  let a := v.getD i 0 + v.getD j 0 + x
  let d := rotateRight64 (v.getD l 0 ^^^ a) 32
  let c := v.getD k 0 + d
  let b := rotateRight64 (v.getD j 0 ^^^ c) 24
  let a := a + b + y
  let d := rotateRight64 (d ^^^ a) 16
  let c := c + d
  let b := rotateRight64 (b ^^^ c) 63
  (((v.setIfInBounds i a).setIfInBounds j b).setIfInBounds k c).setIfInBounds l d

def round (block : Array UInt64) (v : Array UInt64) (order : List Nat) : Array UInt64 :=
  let words := (order.map fun i => block.getD i 0).toArray
  paths.zipIdx.foldl (fun v (path, n) => mix v path (words.getD (2 * n) 0)
    (words.getD (2 * n + 1) 0)) v

/-- The state after a block, given how many bytes have been taken and whether the block is the last
one. -/
def compress (h : Array UInt64) (block : List Nat) (taken : Nat) (last : Bool) : Array UInt64 :=
  let v := h ++ start
  let v := v.modify 12 (· ^^^ taken.toUInt64)
  let v := if last then v.modify 14 (~~~ ·) else v
  let words := (block.map Nat.toUInt64).toArray
  let v := (orders ++ orders.take 2).foldl (round words) v
  h.mapIdx fun i x => x ^^^ v.getD i 0 ^^^ v.getD (i + 8) 0

def digest (size : Nat) (message : List UInt8) : List UInt8 :=
  let blocks := if message.isEmpty then [[]] else pieces 128 message
  let h := start.modify 0 (· ^^^ (0x01010000 + size).toUInt64)
  let count := blocks.length
  let s := blocks.zipIdx.foldl (fun h (b, i) =>
    let full := b ++ List.replicate (128 - b.length) 0
    compress h (littleNumbers 8 full) (128 * i + b.length) (i + 1 == count)) h
  (littleBytes 8 (s.toList.map UInt64.toNat)).take size

end Formulary.Digest.Blake2
