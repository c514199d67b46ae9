import Formulary.Text.Quote

/-!
# Date patterns

A date pattern such as `dd/MM/yyyy` is a sequence of specifiers, quoted texts and other characters.
Each specifier stands for a fragment of a layout, the reference date spelled out.
-/

namespace Formulary.Calendar

/-- The specifiers with their layout fragments; of two that fit, the one listed first counts. -/
def specifiers : List (String × String) :=
  [("yyyy", "2006"), ("yy", "06"), ("MMMM", "January"), ("MMM", "Jan"), ("MM", "01"), ("M", "1"),
    ("dddd", "Monday"), ("ddd", "Mon"), ("dd", "02"), ("d", "2"), ("HH", "15"),
    ("H", "15"), ("hh", "03"), ("h", "3"), ("mm", "04"), ("m", "4"), ("ss", "05"), ("s", "5"),
    ("fffffff", "0000000"), ("ffffff", "000000"), ("fffff", "00000"), ("ffff", "0000"),
    ("fff", "000"), ("ff", "00"), ("f", "0"), ("tt", "PM"), ("zzz", "-07:00"), ("K", "Z07:00")]

inductive Piece where
  | specifier (name fragment : String)
  | quoted (body : List Char)
  | other (c : Char)
  deriving DecidableEq, Repr

inductive PatternFault where
  | unterminatedQuote
  | unknownSpecifier (c : Char)
  deriving DecidableEq, Repr

def PatternFault.message (pattern : Text) : PatternFault → String
  | .unterminatedQuote => s!"date/time format {Text.quote pattern}: unterminated quote"
  | .unknownSpecifier c =>
    s!"date/time format {Text.quote pattern}: unknown specifier {Text.quoteCode c.toNat}"

def specifierAt? (cs : List Char) : Option (String × String) :=
  specifiers.find? fun s => s.1.toList.isPrefixOf cs

/-- Splits a pattern into pieces, given how many characters the last piece still covers. -/
def piecesFrom : Nat → List Char → Except PatternFault (List Piece)
  | _, [] => .ok []
  | skip + 1, _ :: rest => piecesFrom skip rest
  | 0, c :: rest =>
    if c == '\'' then
      let body := rest.takeWhile (· != '\'')
      if body.length == rest.length then .error .unterminatedQuote
      else (piecesFrom (body.length + 1) rest).map (.quoted body :: ·)
    else if Text.isAsciiLetter c.toNat then
      match specifierAt? (c :: rest) with
      | some (name, fragment) =>
        (piecesFrom (name.length - 1) rest).map (.specifier name fragment :: ·)
      | none => .error (.unknownSpecifier c)
    else (piecesFrom 0 rest).map (.other c :: ·)

def pieces (pattern : Text) : Except PatternFault (List Piece) := piecesFrom 0 pattern.byteChars

def Piece.layout : Piece → List Char
  | .specifier _ fragment => fragment.toList
  | .quoted body => body
  | .other c => [c]

def layoutOf (pattern : Text) : Except PatternFault Text :=
  (pieces pattern).map fun ps => Text.ofByteChars (ps.flatMap Piece.layout)

end Formulary.Calendar
