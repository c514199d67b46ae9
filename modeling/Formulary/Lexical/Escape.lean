import Formulary.Text.Utf8

/-!
# Escapes

The escapes in the body of a string or character literal: `\\ \" \' \t \r \n` and `\u` with four
hexadecimal digits. Two such numbers that form a surrogate pair stand for one character.
-/

namespace Formulary.Lexical

inductive EscapeFault where
  | atEnd
  | unknown (byte : UInt8)
  | short
  | badDigits (digits : Text)
  deriving DecidableEq, Repr

def EscapeFault.message : EscapeFault → Text
  | .atEnd => Text.ofString "invalid escape sequence at end of literal"
  | .unknown b => Text.ofString "invalid escape sequence \\" ++ Text.encode b.toNat
  | .short => Text.ofString "invalid \\u escape: not enough characters"
  | .badDigits ds => Text.ofString "invalid \\u escape: " ++ ds

def hexValue? (b : UInt8) : Option Nat :=
  if 0x30 ≤ b && b ≤ 0x39 then some (b.toNat - 0x30)
  else if 0x61 ≤ b && b ≤ 0x66 then some (b.toNat - 0x57)
  else if 0x41 ≤ b && b ≤ 0x46 then some (b.toNat - 0x37)
  else none

def hexFour (t : Text) : Except EscapeFault Nat :=
  let ds := t.take 4
  if ds.length < 4 then .error .short
  else
    match ds.mapM hexValue? with
    | some vs => .ok (vs.foldl (fun n v => n * 16 + v) 0)
    | none => .error (.badDigits ds)

def pair? (high low : Nat) : Option Nat :=
  if 0xD800 ≤ high && high < 0xDC00 && 0xDC00 ≤ low && low < 0xE000 then
    some ((high - 0xD800) * 0x400 + (low - 0xDC00) + 0x10000)
  else none

/-- The second half of a pair, when another `\u` follows. -/
def lowHalf? (high : Nat) (t : Text) : Option Nat :=
  match t with
  | 0x5C :: 0x75 :: rest =>
    match hexFour rest with
    | .ok low => pair? high low
    | .error _ => none
  | _ => none

def shortEscape? (b : UInt8) : Option UInt8 :=
  match b with
  | 0x6E => some 0x0A
  | 0x74 => some 0x09
  | 0x72 => some 0x0D
  | 0x5C => some 0x5C
  | 0x22 => some 0x22
  | 0x27 => some 0x27
  | _ => none

/-- Replaces the escapes; `skip` counts the bytes of the current escape that are still to pass. -/
def unescapeFrom : Nat → Text → Except EscapeFault Text
  | _, [] => .ok []
  | skip + 1, _ :: rest => unescapeFrom skip rest
  | 0, b :: rest =>
    if b != 0x5C then (unescapeFrom 0 rest).map (b :: ·)
    else
      match rest with
      | [] => .error .atEnd
      | e :: body =>
        match shortEscape? e with
        | some c => (unescapeFrom 1 rest).map (c :: ·)
        | none =>
          if e == 0x75 || e == 0x55 then
            match hexFour body with
            | .error fault => .error fault
            | .ok code =>
              match lowHalf? code (body.drop 4) with
              | some c => (unescapeFrom 11 rest).map (Text.encode c ++ ·)
              | none => (unescapeFrom 5 rest).map (Text.encode code ++ ·)
          else .error (.unknown e)

def unescape (body : Text) : Except EscapeFault Text := unescapeFrom 0 body

end Formulary.Lexical
