import Formulary.Digest.Sha
import Formulary.Digest.Blake2
import Formulary.Library.Basic
import Formulary.Text.Base64
import Formulary.Text.Case

/-!
# The digest library

The digests by name, and keyed by a secret; digests of texts in hexadecimal, with and without a key,
and base64.
-/

namespace Formulary.Digest

structure Algorithm where
  name : String
  block : Nat
  digest : List UInt8 → List UInt8

def algorithms : List Algorithm :=
  [⟨"md5", 64, Md5.digest⟩, ⟨"sha1", 64, Sha1.digest⟩, ⟨"sha256", 64, Sha2.digest256⟩,
    ⟨"sha384", 128, Sha2.digest384⟩, ⟨"sha512", 128, Sha2.digest512⟩,
    ⟨"sha3-256", 136, Sha3.digest256⟩, ⟨"sha3-512", 72, Sha3.digest512⟩,
    ⟨"blake2b-256", 128, Blake2.digest 32⟩, ⟨"blake2b-512", 128, Blake2.digest 64⟩]

/-- The digest of a message keyed by a secret; a secret longer than a block is replaced by its
digest. -/
def Algorithm.keyed (a : Algorithm) (key message : List UInt8) : List UInt8 :=
  let short := if a.block < key.length then a.digest key else key
  let full : List UInt8 := short ++ List.replicate (a.block - short.length) 0
  a.digest (full.map (· ^^^ 0x5c) ++ a.digest (full.map (· ^^^ 0x36) ++ message))

end Formulary.Digest

namespace Formulary.Library.Crypto

open Library

def algorithm (name : Text) : Except Failure Digest.Algorithm :=
  match Digest.algorithms.find? fun a => Text.ofString a.name == Text.simpleLower name with
  | some a => .ok a
  | none =>
    let known := ", ".intercalate (Digest.algorithms.map (·.name))
    .error (.plain s!"unsupported algorithm {Text.quote name}; use one of {known}")

def hash (t name : Text) : Except Failure Value := do
  let a ← algorithm name
  .ok (.string (Digest.hexText (a.digest t)))

def uniqueCount : String := "Crypto.UUID"

/-- A unique identifier of the fourth version, of 128 bits six of which are fixed. -/
def identifier (random : Nat) : Text :=
  let bytes := (Digest.bytesOfNat 16 random).mapIdx fun i b =>
    if i == 6 then (b &&& 0x0f) ||| 0x40 else if i == 8 then (b &&& 0x3f) ||| 0x80 else b
  let hex := Digest.hexText bytes
  let dash : Text := [0x2D]
  hex.take 8 ++ dash ++ (hex.drop 8).take 4 ++ dash ++ (hex.drop 12).take 4 ++ dash ++
    (hex.drop 16).take 4 ++ dash ++
    hex.drop 20

/-- A new unique identifier, from the random number of its count. -/
def unique (random : Nat → Nat) : Function :=
  ⟨⟨[], false, [.string, .error]⟩, fun _ => do
    let tally ← get
    set (tally.bump uniqueCount)
    pure (.string (identifier (random (tally.count uniqueCount))))⟩

def functions (random : Nat → Nat) : List (String × Function) :=
  [("UUID", unique random),
    ("Hash", fallible [.string, .string] .string fun a => hash (textArg a 0) (textArg a 1)),
    ("Hash", total [.string] .string fun a =>
      .string (Digest.hexText (Digest.Sha2.digest256 (textArg a 0)))),
    ("HMAC", fallible [.string, .string, .string] .string fun a => do
      let m ← algorithm (textArg a 2)
      .ok (.string (Digest.hexText (m.keyed (textArg a 1) (textArg a 0))))),
    ("Base64Encode", total [.string] .string fun a => .string (textArg a 0).base64),
    ("Base64Decode", fallible [.string] .string fun a =>
      match (textArg a 0).readBase64 with
      | .ok t => .ok (.string t)
      | .error n => .error (.plain s!"illegal base64 data at input byte {n}"))]

def library (random : Nat → Nat) : Library := { name := "Crypto", functions := functions random }

end Formulary.Library.Crypto
