import Formulary.Text.Utf8
import Formulary.Text.Classes

/-!
# Quoted texts

The spelling of texts and characters in messages and listings: between quotes, with short escapes
for the usual control characters and numeric escapes for everything that does not print.
-/

namespace Formulary.Text

/-- The digits of a number in base sixteen, padded with zeros to a width. -/
def hexPadded (width n : Nat) : String :=
  let digits := String.ofList (Nat.toDigits 16 n)
  "".pushn '0' (width - digits.length) ++ digits

def shortEscape? : Nat → Option String
  | 0x07 => some "\\a"
  | 0x08 => some "\\b"
  | 0x0C => some "\\f"
  | 0x0A => some "\\n"
  | 0x0D => some "\\r"
  | 0x09 => some "\\t"
  | 0x0B => some "\\v"
  | _ => none

/-- The spelling of one code point between two quotes. -/
def escapeCode (mark : Nat) (c : Nat) : String :=
  if c == mark || c == 0x5C then "\\" ++ String.singleton (Char.ofNat c)
  else if isPrintable c then String.singleton (Char.ofNat c)
  else
    match shortEscape? c with
    | some s => s
    | none =>
      if c < 0x20 || c == 0x7F then "\\x" ++ hexPadded 2 c
      else if c < 0x10000 then "\\u" ++ hexPadded 4 c
      else "\\U" ++ hexPadded 8 c

/-- A text between double quotes; a stray byte is spelled by its number. -/
def quote (t : Text) : String :=
  let body := t.glyphs.map fun g =>
    if g.isStray then "\\x" ++ hexPadded 2 ((g.bytes.headD 0).toNat) else escapeCode 0x22 g.code
  "\"" ++ String.join body ++ "\""

def quoteString (s : String) : String := quote (ofString s)

/-- A character between single quotes; a number that is no character shows as the replacement. -/
def quoteCode (n : Int) : String :=
  let c := if n < 0 || !isScalar n.toNat then replacement else n.toNat
  "'" ++ escapeCode 0x27 c ++ "'"

end Formulary.Text
