import Formulary.Text.Utf8

/-!
# Base64

Bytes written with sixty-four characters, four for three bytes, padded at the end. Line ends are
passed over when they are read.
-/

namespace Formulary.Text

/-- The characters of the numbers below sixty-four. -/
def base64Digits : Text :=
  ofString "ABCDEFGHIJKLMNOPQRSTUVWXYZabcdefghijklmnopqrstuvwxyz0123456789+/"

/-- The character of a number below sixty-four. -/
def base64Digit (n : Nat) : UInt8 := base64Digits.getD (n % 64) 0

/-- The mark that fills up the last four characters. -/
def base64Pad : UInt8 := 0x3D

def base64 : Text → Text
  | a :: b :: c :: rest =>
    let n := (a.toNat * 256 + b.toNat) * 256 + c.toNat
    base64Digit (n / 262144) :: base64Digit (n / 4096) :: base64Digit (n / 64) :: base64Digit
      n :: base64 rest
  | [a, b] =>
    let n := a.toNat * 256 + b.toNat
    [base64Digit (n / 1024), base64Digit (n / 16), base64Digit (n * 4), base64Pad]
  | [a] => [base64Digit (a.toNat / 4), base64Digit (a.toNat * 16), base64Pad, base64Pad]
  | [] => []

def base64Value? (b : UInt8) : Option Nat := base64Digits.idxOf? b

def isLineEndByte (b : UInt8) : Bool := b == 0x0A || b == 0x0D

/-- The bytes of two, three or four numbers below sixty-four. -/
def base64Bytes : List Nat → Text
  | [a, b] => [((a * 64 + b) / 16).toUInt8]
  | [a, b, c] =>
    let n := ((a * 64 + b) * 64 + c) / 4
    [(n / 256).toUInt8, n.toUInt8]
  | [a, b, c, d] =>
    let n := ((a * 64 + b) * 64 + c) * 64 + d
    [(n / 65536).toUInt8, (n / 256).toUInt8, n.toUInt8]
  | _ => []

/-- What follows the last padding must be line ends only; otherwise the position of the first other
byte. -/
def base64End (position : Nat) (rest bytes : Text) : Except Nat Text :=
  let blank := rest.takeWhile isLineEndByte
  if blank.length == rest.length then .ok bytes else .error (position + blank.length)

/-- Reads base64 from a position on, with the numbers read for the current four characters. A
failure is the position of the byte to blame. -/
def readBase64From (position : Nat) (numbers : List Nat) : Text → Except Nat Text
  | [] => if numbers.isEmpty then .ok [] else .error (position - numbers.length)
  | b :: rest =>
    match base64Value? b with
    | some n =>
      if numbers.length == 3 then
        (readBase64From (position + 1) [] rest).map (base64Bytes (numbers ++ [n]) ++ ·)
      else readBase64From (position + 1) (numbers ++ [n]) rest
    | none =>
      if isLineEndByte b then readBase64From (position + 1) numbers rest
      else if b != base64Pad then .error position
      else
        match numbers.length with
        | 0 | 1 => .error position
        | 2 =>
          let blank := rest.takeWhile isLineEndByte
          match rest.drop blank.length with
          | [] => .error (position + 1 + blank.length)
          | c :: more =>
            if c != base64Pad then .error (position + blank.length)
            else base64End (position + 2 + blank.length) more (base64Bytes numbers)
        | _ => base64End (position + 1) rest (base64Bytes numbers)

def readBase64 (t : Text) : Except Nat Text := readBase64From 0 [] t

end Formulary.Text
