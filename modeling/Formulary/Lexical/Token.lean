import Formulary.Text.Quote

/-!
# Tokens

The kinds of tokens of the expression language, their names, and tokens with the place where they
start.
-/

namespace Formulary.Lexical

inductive Kind where
  | eof
  | invalid
  | integer
  | real
  | hex
  | string
  | char
  | dateTime
  | timeSpan
  | identifier
  | yes
  | no
  | null
  | and
  | or
  | xor
  | not
  | among
  | choose
  | cast
  | plus
  | minus
  | times
  | divide
  | mod
  | power
  | parenOpen
  | parenClose
  | bracketOpen
  | bracketClose
  | dot
  | separator
  | equal
  | notEqual
  | less
  | lessEqual
  | greater
  | greaterEqual
  | shiftLeft
  | shiftRight
  deriving DecidableEq, Repr, Inhabited

namespace Kind

/-- All kinds with their names, in the order in which sets of kinds are listed. -/
def table : List (Kind × String) :=
  [(eof, "(eof)"), (invalid, "(error)"), (integer, "(integer)"), (real, "(real)"), (hex, "(hex)"),
    (string, "(string)"), (char, "(char)"), (dateTime, "(datetime)"), (timeSpan, "(timespan)"),
    (identifier, "(identifier)"), (yes, "true"), (no, "false"), (null, "null"),
    (and, "and"), (or, "or"), (xor, "xor"), (not, "not"), (among, "in"), (choose, "if"),
    (cast, "cast"), (plus, "+"), (minus, "-"), (times, "*"), (divide, "/"), (mod, "%"),
    (power, "^"), (parenOpen, "("), (parenClose, ")"), (bracketOpen, "["), (bracketClose, "]"),
    (dot, "."), (separator, "(separator)"), (equal, "="), (notEqual, "<>"), (less, "<"),
    (lessEqual, "<="), (greater, ">"), (greaterEqual, ">="), (shiftLeft, "<<"), (shiftRight, ">>")]

def all : List Kind := table.map (·.1)

def name (k : Kind) : String := ((table.find? (·.1 == k)).map (·.2)).getD ""

def ofName? (s : String) : Option Kind := (table.find? (·.2 == s)).map (·.1)

/-- The kinds spelled by words, in any letter case. -/
def keywords : List Kind := [yes, no, null, and, or, xor, not, among, choose, cast]

def symbols : List Kind :=
  [plus, minus, times, divide, mod, power, parenOpen, parenClose, bracketOpen,
    bracketClose, dot, equal, notEqual, less, lessEqual, greater, greaterEqual,
    shiftLeft, shiftRight]

/-- Whether the name of a kind describes a class of tokens and is shown without quotes. -/
def isClass (k : Kind) : Bool :=
  [eof, invalid, integer, real, hex, string, char, dateTime, timeSpan, identifier].contains k

end Kind

structure Place where
  offset : Nat := 0
  line : Nat := 1
  column : Nat := 1
  deriving DecidableEq, Repr, Inhabited

def Place.after (p : Place) (g : Text.Glyph) : Place :=
  if g.code == 0x0A then ⟨p.offset + g.bytes.length, p.line + 1, 1⟩
  else ⟨p.offset + g.bytes.length, p.line, p.column + 1⟩

def Place.afterAll (p : Place) (gs : List Text.Glyph) : Place := gs.foldl Place.after p

structure Token where
  kind : Kind
  image : Text
  place : Place
  deriving DecidableEq, Repr, Inhabited

end Formulary.Lexical
