import Formulary.Lexical.Options
import Formulary.Lexical.Automaton

/-!
# Scanners

One scanner for each class of tokens whose spelling varies. A scanner says how many of the
characters that remain its token takes, or nothing if no such token stands at the front.
-/

namespace Formulary.Lexical

/-- The number of characters of the token at the front. -/
abbrev Scanner := List Text.Glyph → Option Nat

def isHexDigit (c : Nat) : Bool :=
  Text.isAsciiDigit c || (0x61 ≤ c && c ≤ 0x66) || (0x41 ≤ c && c ≤ 0x46)

def isBlank (c : Nat) : Bool := c == 0x20 || (0x09 ≤ c && c ≤ 0x0D)

def isNameStart (c : Nat) : Bool :=
  c == 0x5F || Text.isAsciiLetter c || (0x80 < c && Text.isLetter c)

def isNamePart (c : Nat) : Bool := isNameStart c || Text.isAsciiDigit c

def isEither (small : Char) (c : Nat) : Bool := c == small.toNat || c == small.toUpper.toNat

/-- The number of characters of a class at the front. -/
def run (p : Nat → Bool) : List Text.Glyph → Nat
  | [] => 0
  | g :: rest => if p g.code then run p rest + 1 else 0

def one (p : Nat → Bool) : Scanner
  | g :: _ => if p g.code then some 1 else none
  | [] => none

def many (p : Nat → Bool) : Scanner := fun cs => some (run p cs)

def many1 (p : Nat → Bool) : Scanner := fun cs => if run p cs == 0 then none else some (run p cs)

/-- Up to a number of characters of a class. -/
def upTo (p : Nat → Bool) (n : Nat) : Scanner := fun cs => some (run p (cs.take n))

/-- An exact number of characters of a class. -/
def exactly (p : Nat → Bool) (n : Nat) : Scanner := fun cs =>
    if run p (cs.take n) == n then some n else none

def mark (c : Char) : Scanner := one (· == c.toNat)

def both (a b : Scanner) : Scanner := fun cs => (a cs).bind fun n => (b (cs.drop n)).map (n + ·)

def parts (ss : List Scanner) : Scanner := ss.foldr both fun _ => some 0

/-- The first of two tokens that stands at the front. -/
def either (a b : Scanner) : Scanner := fun cs => (a cs).or (b cs)

def optional (s : Scanner) : Scanner := fun cs => some ((s cs).getD 0)

/-- The suffix of an integer: `u`, `l`, or both in either order, or none. -/
def integerSuffix : Scanner :=
  optional (either (both (one (isEither 'u')) (optional (one (isEither 'l'))))
    (both (one (isEither 'l')) (optional (one (isEither 'u')))))

def realSuffix : Scanner := one fun c => isEither 'd' c || isEither 'f' c || isEither 'm' c

def exponent : Scanner :=
  parts [one (isEither 'e'), optional (one fun c => c == 0x2B || c == 0x2D), one Text.isAsciiDigit,
    upTo Text.isAsciiDigit 2]

def scanInteger : Scanner := both (many1 Text.isAsciiDigit) integerSuffix

/-- `0x`, hexadecimal digits and an optional suffix. -/
def scanHex : Scanner := parts [mark '0', one (isEither 'x'), many1 isHexDigit, integerSuffix]

/-- A real: with a decimal point and digits after it, or with an exponent, or with a suffix. -/
def scanReal (o : Options) : Scanner := fun cs =>
  let whole := run Text.isAsciiDigit cs
  let rest := cs.drop whole
  if (one (· == o.decimalPoint) rest).isSome then
    if whole == 0 && o.requireDigits then none
    else
      (parts [many1 Text.isAsciiDigit, optional exponent, optional realSuffix] (rest.drop 1)).map
      (whole + 1 + ·)
  else if whole == 0 then none
  else (either (both exponent (optional realSuffix)) realSuffix rest).map (whole + ·)

/-- What follows a backslash: a short escape, or `u` and four hexadecimal digits. -/
def escape : Scanner :=
  either (one fun c => [0x5C, 0x22, 0x27, 0x74, 0x72, 0x6E].contains c)
    (both (one (isEither 'u')) (exactly isHexDigit 4))

def isLineEnd (c : Nat) : Bool := c == 0x0D || c == 0x0A

/-- The rest of a string after its opening quote; `skip` counts the characters of the current escape
that are still to pass. -/
def stringBody : Nat → Scanner
  | _, [] => none
  | skip + 1, _ :: rest => (stringBody skip rest).map (· + 1)
  | 0, g :: rest =>
    if g.code == 0x22 then some 1
    else if g.code == 0x5C then
      match escape rest with
      | some n => (stringBody n rest).map (· + 1)
      | none => none
    else if isLineEnd g.code then none
    else (stringBody 0 rest).map (· + 1)

def scanString : Scanner := both (mark '"') (stringBody 0)

/-- A character between single quotes. -/
def scanChar : Scanner :=
  parts [mark '\'',
    either (both (mark '\\') escape) (one fun c =>
      c != 0x5C && c != 0x27 && !isLineEnd c), mark '\'']

def scanDateTime : Scanner := parts [mark '#', many1 fun c => c != 0x23 && !isLineEnd c, mark '#']

/-- A time span `##[d.]hh:mm[:ss[.fffffff]]#`. -/
def scanTimeSpan : Scanner :=
  let digit := Text.isAsciiDigit
  let fraction := parts [mark '.', one digit, upTo digit 6]
  let seconds := parts [mark ':', exactly digit 2, optional fraction]
  parts [mark '#', mark '#', optional (both (many1 digit) (mark '.')), exactly digit 2, mark ':',
    exactly digit 2, optional seconds, mark '#']

/-- A name; a sign in front lets it spell a keyword. -/
def scanIdentifier : Scanner := parts [optional (mark '@'), one isNameStart, many isNamePart]

def scanners (o : Options) : List (Kind × Scanner) :=
  [(.hex, scanHex), (.real, scanReal o), (.integer, scanInteger), (.string, scanString),
    (.char, scanChar), (.timeSpan, scanTimeSpan), (.dateTime, scanDateTime),
    (.identifier, scanIdentifier)]

def longer (cs : List Text.Glyph) (best : Option (Kind × Nat)) (entry : Kind × Scanner) :
    Option (Kind × Nat) :=
  match entry.2 cs with
  | none => best
  | some width => if ((best.map (·.2)).getD 0) < width then some (entry.1, width) else best

/-- The longest token of a list of scanners, with its length in characters; the first wins a tie. -/
def longestScan (table : List (Kind × Scanner)) (cs : List Text.Glyph) : Option (Kind × Nat) :=
  table.foldl (longer cs) none

end Formulary.Lexical
