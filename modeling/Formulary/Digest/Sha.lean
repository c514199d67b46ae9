import Formulary.Text.Utf8

/-!
# Digests by blocks

Bytes are words of 32 and 64 bits in either order, padded to whole blocks, and mixed block by block:
MD5, SHA-1, SHA-2 and SHA-3, each in a namespace of its own.
-/

namespace Formulary.Digest

def rotateLeft32 (x : UInt32) (n : UInt32) : UInt32 := (x <<< n) ||| (x >>> (32 - n))

def rotateRight32 (x : UInt32) (n : UInt32) : UInt32 := (x >>> n) ||| (x <<< (32 - n))

def rotateLeft64 (x : UInt64) (n : UInt64) : UInt64 :=
  if n == 0 then x else (x <<< n) ||| (x >>> (64 - n))

def rotateRight64 (x : UInt64) (n : UInt64) : UInt64 := (x >>> n) ||| (x <<< (64 - n))

/-- The number of bytes, the first one counting most. -/
def natOfBytes (bs : List UInt8) : Nat := bs.foldl (fun n b => n * 256 + b.toNat) 0

/-- The bytes of a number, the last one counting most. -/
def bytesOfNat : Nat → Nat → List UInt8
  | 0, _ => []
  | count + 1, n => n.toUInt8 :: bytesOfNat count (n / 256)

/-- So many pieces of a length from the front of a list. -/
def takePieces (size : Nat) : Nat → List α → List (List α)
  | 0, _ => []
  | count + 1, bs => bs.take size :: takePieces size count (bs.drop size)

/-- A list cut into pieces of a length; the last piece may be shorter. -/
def pieces (size : Nat) (bs : List α) : List (List α) :=
  takePieces size ((bs.length + size - 1) / size) bs

/-- Bytes as numbers of a width, the first byte of each counting most. -/
def bigNumbers (width : Nat) (bs : List UInt8) : List Nat := (pieces width bs).map natOfBytes

/-- Bytes as numbers of a width, the last byte of each counting most. -/
def littleNumbers (width : Nat) (bs : List UInt8) : List Nat :=
  (pieces width bs).map fun p => natOfBytes p.reverse

/-- A message with a single bit after it, zeros, and its length in bits in a field of some bytes, so
that it fills whole blocks. -/
def padded (block field : Nat) (bigFirst : Bool) (message : List UInt8) : List UInt8 :=
  let used := (message.length + 1 + field) % block
  let zeros := if used == 0 then 0 else block - used
  let length := bytesOfNat field (8 * message.length)
  message ++ 0x80 :: List.replicate zeros 0 ++ (if bigFirst then length.reverse else length)

/-- The bytes of numbers of a width, the first byte counting most. -/
def bigBytes (width : Nat) (ns : List Nat) : List UInt8 :=
  ns.flatMap fun n => (bytesOfNat width n).reverse

/-- The bytes of numbers of a width, the last byte counting most. -/
def littleBytes (width : Nat) (ns : List Nat) : List UInt8 := ns.flatMap (bytesOfNat width)

/-- Bytes in small hexadecimal digits. -/
def hexText (bs : List UInt8) : Text :=
  let digit (n : Nat) : UInt8 := if n < 10 then (0x30 + n).toUInt8 else (0x57 + n).toUInt8
  bs.flatMap fun b => [digit (b.toNat / 16), digit (b.toNat % 16)]

end Formulary.Digest

/-!
## MD5

Four words mixed in sixty-four steps for each block of 64 bytes, lengths and words with the least
byte first.
-/

namespace Formulary.Digest.Md5

/-- The constants of the steps: the leading 32 bits of the sines of 1, 2, 3 and so on. -/
def constants : Array UInt32 := #[
    0xd76aa478, 0xe8c7b756, 0x242070db, 0xc1bdceee, 0xf57c0faf, 0x4787c62a,
    0xa8304613, 0xfd469501, 0x698098d8, 0x8b44f7af, 0xffff5bb1, 0x895cd7be,
    0x6b901122, 0xfd987193, 0xa679438e, 0x49b40821, 0xf61e2562, 0xc040b340,
    0x265e5a51, 0xe9b6c7aa, 0xd62f105d, 0x02441453, 0xd8a1e681, 0xe7d3fbc8,
    0x21e1cde6, 0xc33707d6, 0xf4d50d87, 0x455a14ed, 0xa9e3e905, 0xfcefa3f8,
    0x676f02d9, 0x8d2a4c8a, 0xfffa3942, 0x8771f681, 0x6d9d6122, 0xfde5380c,
    0xa4beea44, 0x4bdecfa9, 0xf6bb4b60, 0xbebfbc70, 0x289b7ec6, 0xeaa127fa,
    0xd4ef3085, 0x04881d05, 0xd9d4d039, 0xe6db99e5, 0x1fa27cf8, 0xc4ac5665,
    0xf4292244, 0x432aff97, 0xab9423a7, 0xfc93a039, 0x655b59c3, 0x8f0ccc92,
    0xffeff47d, 0x85845dd1, 0x6fa87e4f, 0xfe2ce6e0, 0xa3014314, 0x4e0811a1,
    0xf7537e82, 0xbd3af235, 0x2ad7d2bb, 0xeb86d391]

/-- The rotations of the four rounds, each repeated four times. -/
def rotations : Array (Array UInt32) :=
  #[#[7, 12, 17, 22], #[5, 9, 14, 20], #[4, 11, 16, 23], #[6, 10, 15, 21]]

structure State where
  a : UInt32 := 0x67452301
  b : UInt32 := 0xefcdab89
  c : UInt32 := 0x98badcfe
  d : UInt32 := 0x10325476

def step (block : Array UInt32) (s : State) (i : Nat) : State :=
  let (f, g) :=
    if i < 16 then ((s.b &&& s.c) ||| (~~~s.b &&& s.d), i)
    else if i < 32 then ((s.d &&& s.b) ||| (~~~s.d &&& s.c), (5 * i + 1) % 16)
    else if i < 48 then (s.b ^^^ s.c ^^^ s.d, (3 * i + 5) % 16)
    else (s.c ^^^ (s.b ||| ~~~s.d), (7 * i) % 16)
  let sum := f + s.a + constants.getD i 0 + block.getD g 0
  let turn := (rotations.getD (i / 16) #[]).getD (i % 4) 0
  { a := s.d, b := s.b + rotateLeft32 sum turn, c := s.b, d := s.c }

def compress (s : State) (block : List Nat) : State :=
  let words := (block.map Nat.toUInt32).toArray
  let t := (List.range 64).foldl (step words) s
  { a := s.a + t.a, b := s.b + t.b, c := s.c + t.c, d := s.d + t.d }

def digest (message : List UInt8) : List UInt8 :=
  let blocks := pieces 16 (littleNumbers 4 (padded 64 8 false message))
  let s := blocks.foldl compress {}
  littleBytes 4 ([s.a, s.b, s.c, s.d].map UInt32.toNat)

end Formulary.Digest.Md5

/-!
## SHA-1

Five words mixed in eighty steps for each block of 64 bytes.
-/

namespace Formulary.Digest.Sha1

structure State where
  a : UInt32 := 0x67452301
  b : UInt32 := 0xefcdab89
  c : UInt32 := 0x98badcfe
  d : UInt32 := 0x10325476
  e : UInt32 := 0xc3d2e1f0

/-- The eighty words of a block: its own sixteen, then each from four earlier ones. -/
def schedule (block : List Nat) : Array UInt32 :=
  (List.range 64).foldl (fun w _ =>
    let n := w.size
    let x := w.getD (n - 3) 0 ^^^ w.getD (n - 8) 0 ^^^ w.getD (n - 14) 0 ^^^ w.getD (n - 16) 0
    w.push (rotateLeft32 x 1)) (block.map Nat.toUInt32).toArray

def step (words : Array UInt32) (s : State) (i : Nat) : State :=
  let (f, k) :=
    if i < 20 then ((s.b &&& s.c) ||| (~~~s.b &&& s.d), (0x5a827999 : UInt32))
    else if i < 40 then (s.b ^^^ s.c ^^^ s.d, 0x6ed9eba1)
    else if i < 60 then ((s.b &&& s.c) ||| (s.b &&& s.d) ||| (s.c &&& s.d), 0x8f1bbcdc)
    else (s.b ^^^ s.c ^^^ s.d, 0xca62c1d6)
  let t := rotateLeft32 s.a 5 + f + s.e + k + words.getD i 0
  { a := t, b := s.a, c := rotateLeft32 s.b 30, d := s.c, e := s.d }

def compress (s : State) (block : List Nat) : State :=
  let t := (List.range 80).foldl (step (schedule block)) s
  { a := s.a + t.a, b := s.b + t.b, c := s.c + t.c, d := s.d + t.d, e := s.e + t.e }

def digest (message : List UInt8) : List UInt8 :=
  let blocks := pieces 16 (bigNumbers 4 (padded 64 8 true message))
  let s := blocks.foldl compress {}
  bigBytes 4 ([s.a, s.b, s.c, s.d, s.e].map UInt32.toNat)

end Formulary.Digest.Sha1

/-!
## SHA-2

Eight words mixed in rounds, 64 with words of 32 bits and 80 with words of 64 bits. The constants
are the leading bits of the fractions of cube and square roots of the first primes.
-/

namespace Formulary.Digest.Sha2

/-- The largest number below a bound of bits whose power is not above another number. -/
def rootFrom (power n : Nat) : Nat → Nat → Nat
  | 0, low => low
  | bit + 1, low =>
    let next := low + Nat.pow 2 bit
    rootFrom power n bit (if Nat.pow next power ≤ n then next else low)

/-- The first 64 bits of the fraction of a root of a number. -/
def rootFraction (power n : Nat) : Nat :=
  rootFrom power (n * Nat.pow 2 (64 * power)) 72 0 % Nat.pow 2 64

/-- Whether a number has no divisor from two up to its half. -/
def isPrime (n : Nat) : Bool := 2 ≤ n && (List.range (n / 2 + 1)).all fun d => d < 2 || n % d != 0

def primes : List Nat := ((List.range 410).filter isPrime).take 80

/-- The constants of the rounds for words of 64 bits. -/
def constants64 : Array UInt64 := (primes.map fun p => (rootFraction 3 p).toUInt64).toArray

/-- The constants of the rounds for words of 32 bits. -/
def constants32 : Array UInt32 :=
  (primes.map fun p => (rootFraction 3 p / Nat.pow 2 32).toUInt32).toArray

def roots (first : Nat) : List Nat := ((primes.drop first).take 8).map (rootFraction 2)

structure State (α : Type) where
  a : α
  b : α
  c : α
  d : α
  e : α
  f : α
  g : α
  h : α

def State.ofList? (make : Nat → α) : List Nat → Option (State α)
  | [a, b, c, d, e, f, g, h] => some ⟨make a, make b, make c, make d, make e,
      make f, make g, make h⟩
  | _ => none

def State.toList (s : State α) : List α := [s.a, s.b, s.c, s.d, s.e, s.f, s.g, s.h]

/-- Two states added word by word. -/
def State.sum [Add α] (s t : State α) : State α :=
  ⟨s.a + t.a, s.b + t.b, s.c + t.c, s.d + t.d, s.e + t.e, s.f + t.f, s.g + t.g, s.h + t.h⟩

/-- The words of a block for all rounds: its own sixteen, then each from four earlier ones. -/
def schedule [Add α] [Inhabited α] (rounds : Nat) (small0 small1 : α → α)
    (block : List α) : Array α :=
  (List.range (rounds - 16)).foldl (fun w _ =>
    let n := w.size
    let earlier (k : Nat) : α := w.getD (n - k) default
    w.push (earlier 16 + small0 (earlier 15) + earlier 7 + small1 (earlier 2))) block.toArray

def round [Add α] [AndOp α] [XorOp α] [Complement α] (big0 big1 : α → α) (s : State α)
    (k : α) : State α :=
  let choice := (s.e &&& s.f) ^^^ (~~~s.e &&& s.g)
  let majority := (s.a &&& s.b) ^^^ (s.a &&& s.c) ^^^ (s.b &&& s.c)
  let t := s.h + big1 s.e + choice + k
  ⟨t + big0 s.a + majority, s.a, s.b, s.c, s.d + t, s.e, s.f, s.g⟩

def compress32 (s : State UInt32) (block : List Nat) : State UInt32 :=
  let r := rotateRight32
  let words := schedule 64 (fun x => r x 7 ^^^ r x 18 ^^^ (x >>> 3)) (fun x =>
    r x 17 ^^^ r x 19 ^^^ (x >>> 10))
    (block.map Nat.toUInt32)
  let step (t : State UInt32) (i : Nat) : State UInt32 :=
    round (fun x => r x 2 ^^^ r x 13 ^^^ r x 22) (fun x => r x 6 ^^^ r x 11 ^^^ r x 25) t
      (constants32.getD i 0 + words.getD i 0)
  s.sum ((List.range 64).foldl step s)

def compress64 (s : State UInt64) (block : List Nat) : State UInt64 :=
  let r := rotateRight64
  let words := schedule 80 (fun x => r x 1 ^^^ r x 8 ^^^ (x >>> 7)) (fun x =>
    r x 19 ^^^ r x 61 ^^^ (x >>> 6))
    (block.map Nat.toUInt64)
  let step (t : State UInt64) (i : Nat) : State UInt64 :=
    round (fun x => r x 28 ^^^ r x 34 ^^^ r x 39) (fun x => r x 14 ^^^ r x 18 ^^^ r x 41) t
      (constants64.getD i 0 + words.getD i 0)
  s.sum ((List.range 80).foldl step s)

def digest256 (message : List UInt8) : List UInt8 :=
  match State.ofList? (fun n => (n / Nat.pow 2 32).toUInt32) (roots 0) with
  | some start =>
    let s := (pieces 16 (bigNumbers 4 (padded 64 8 true message))).foldl compress32 start
    bigBytes 4 (s.toList.map UInt32.toNat)
  | none => []

/-- A digest of up to 512 bits from a start given by eight primes. -/
def digest64 (first size : Nat) (message : List UInt8) : List UInt8 :=
  match State.ofList? Nat.toUInt64 (roots first) with
  | some start =>
    let s := (pieces 16 (bigNumbers 8 (padded 128 16 true message))).foldl compress64 start
    (bigBytes 8 (s.toList.map UInt64.toNat)).take size
  | none => []

def digest384 (message : List UInt8) : List UInt8 := digest64 8 48 message

def digest512 (message : List UInt8) : List UInt8 := digest64 0 64 message

end Formulary.Digest.Sha2

/-!
## SHA-3

A state of twenty-five words is permuted in twenty-four rounds after each block that is mixed into
it.
-/

namespace Formulary.Digest.Sha3

def constants : List UInt64 := [
    0x0000000000000001, 0x0000000000008082, 0x800000000000808a, 0x8000000080008000,
    0x000000000000808b, 0x0000000080000001, 0x8000000080008081, 0x8000000000008009,
    0x000000000000008a, 0x0000000000000088, 0x0000000080008009, 0x000000008000000a,
    0x000000008000808b, 0x800000000000008b, 0x8000000000008089, 0x8000000000008003,
    0x8000000000008002, 0x8000000000000080, 0x000000000000800a, 0x800000008000000a,
    0x8000000080008081, 0x8000000000008080, 0x0000000080000001, 0x8000000080008008]

/-- The word at a column and a row. -/
def lane (s : Array UInt64) (x y : Nat) : UInt64 := s.getD (x % 5 + 5 * (y % 5)) 0

def tabulate (f : Nat → Nat → UInt64) : Array UInt64 :=
  ((List.range 25).map fun i => f (i % 5) (i / 5)).toArray

/-- How far the word at a column and a row is rotated. -/
def offsets : Array UInt64 :=
  #[0, 1, 62, 28, 27, 36, 44, 6, 55, 20, 3, 10, 43, 25, 39, 41, 45, 15, 21, 8, 18, 2, 61, 56, 14]

/-- One round: the parities of the columns are mixed in, words are rotated and moved, rows are
combined, and the constant is added. -/
def round (s : Array UInt64) (constant : UInt64) : Array UInt64 :=
  let parity := ((List.range 5).map fun x =>
    lane s x 0 ^^^ lane s x 1 ^^^ lane s x 2 ^^^ lane s x 3 ^^^ lane s x 4).toArray
  let mixed := tabulate fun x y =>
    lane s x y ^^^ parity.getD ((x + 4) % 5) 0 ^^^ rotateLeft64 (parity.getD ((x + 1) % 5) 0) 1
  let moved := tabulate fun x y =>
    let (u, v) := ((x + 3 * y) % 5, x)
    rotateLeft64 (lane mixed u v) (lane offsets u v)
  let combined := tabulate fun x y => lane moved x y ^^^
    (~~~lane moved (x + 1) y &&& lane moved (x + 2) y)
  combined.modify 0 (· ^^^ constant)

def permute (s : Array UInt64) : Array UInt64 := constants.foldl round s

def absorb (s : Array UInt64) (block : List Nat) : Array UInt64 :=
  permute (block.zipIdx.foldl (fun s (n, i) => s.modify i (· ^^^ n.toUInt64)) s)

/-- A message with the bits that end it, filled up to whole blocks. -/
def filled (rate : Nat) (message : List UInt8) : List UInt8 :=
  let zeros := rate - message.length % rate
  if zeros == 1 then message ++ [0x86] else message ++
    0x06 :: List.replicate (zeros - 2) 0 ++ [0x80]

/-- A digest of some bytes with blocks of some bytes. -/
def digest (rate size : Nat) (message : List UInt8) : List UInt8 :=
  let blocks := pieces (rate / 8) (littleNumbers 8 (filled rate message))
  let s := blocks.foldl absorb (Array.replicate 25 0)
  (littleBytes 8 (s.toList.map UInt64.toNat)).take size

def digest256 (message : List UInt8) : List UInt8 := digest 136 32 message

def digest512 (message : List UInt8) : List UInt8 := digest 72 64 message

end Formulary.Digest.Sha3
