import Formulary.Lexical.Token
import Formulary.Calendar.Pattern

/-!
# Lexical options

The settings that change the shape of tokens, and when they describe an unambiguous language.
-/

namespace Formulary.Lexical

/-- The deepest nesting of grammar rules unless another limit is set. -/
def defaultDepth : Nat := 2000

/-- The lexical settings: how date literals are written, whether a real needs a digit before its
point, the decimal and argument separators as code points, and the nesting limit. -/
structure Options where
  dateFormat : Text := Text.ofString "dd/MM/yyyy"
  requireDigits : Bool := false
  decimalPoint : Nat := 0x2E
  separator : Nat := 0x2C
  maxDepth : Int := defaultDepth
  deriving DecidableEq, Repr, Inhabited

inductive OptionFault where
  | sameSeparators (code : Nat)
  | badSeparator (code : Nat)
  | operatorSeparator (code : Nat)
  | emptyFormat
  | format (pattern : Text) (fault : Calendar.PatternFault)
  deriving DecidableEq, Repr

def OptionFault.message : OptionFault → String
  | .sameSeparators c =>
    s!"parser options: decimal separator and argument separator are both {Text.quoteCode c}"
  | .badSeparator c => s!"parser options: invalid separator {Text.quoteCode c}"
  | .operatorSeparator c =>
    s!"parser options: argument separator {Text.quoteCode c} is already an operator"
  | .emptyFormat => "parser options: empty date/time format"
  | .format pattern fault => s!"parser options: {fault.message pattern}"

/-- Whether a code point cannot separate anything. -/
def isBadSeparator (c : Nat) : Bool :=
  c == 0 || Text.isLetter c || Text.isDecimalDigit c || Text.isSpace c || c == 0x5F

/-- Whether a code point spells a symbol on its own. -/
def isSymbol (c : Nat) : Bool :=
  Kind.symbols.any fun k => k.name.toList.map Char.toNat == [c]

/-- The first fault of the settings, if any. -/
def Options.fault? (o : Options) : Option OptionFault :=
  if o.decimalPoint == o.separator then some (.sameSeparators o.decimalPoint)
  else
    match [o.decimalPoint, o.separator].find? isBadSeparator with
    | some c => some (.badSeparator c)
    | none =>
      if o.separator != 0x2C && isSymbol o.separator then some (.operatorSeparator o.separator)
      else if o.dateFormat.isEmpty then some .emptyFormat
      else
        match Calendar.layoutOf o.dateFormat with
        | .error fault => some (.format o.dateFormat fault)
        | .ok _ => none

/-- The nesting limit; a limit that is not positive means the default. -/
def Options.depth (o : Options) : Nat := if o.maxDepth ≤ 0 then defaultDepth else o.maxDepth.toNat

structure Pattern where
  kind : Kind
  name : String
  scanned : Bool
  pattern : Text
  ignoreCase : Bool
  deriving Repr

def Options.fixedPatterns (o : Options) : List Pattern :=
  (Kind.keywords.map fun k => ⟨k, String.ofList (k.name.toList.map Char.toUpper), false,
    Text.ofString k.name, true⟩)
    ++ (Kind.symbols.map fun k => ⟨k, k.name, false, Text.ofString k.name, false⟩)
    ++ [⟨.separator, "ARGUMENT_SEPARATOR", false, Text.encode o.separator, false⟩]

def Options.scannedPatterns (o : Options) : List Pattern :=
  let before := if o.requireDigits then "+" else "*"
  let point := if o.decimalPoint == 0x2E then Text.ofString "\\." else Text.encode o.decimalPoint
  let fixed (kind : Kind) (name pattern : String) : Pattern :=
    ⟨kind, name, true, Text.ofString pattern, true⟩
  [fixed .integer "INTEGER" "\\d+(u|l|ul|lu)?",
    ⟨.real, "REAL", true,
      Text.ofString s!"\\d{before}" ++ point ++
        Text.ofString "\\d+(e[+-]?\\d\x7b1,3\x7d)?[dfm]?|\\d+e[+-]?\\d\x7b1,3\x7d[dfm]?|\\d+[dfm]",
        true⟩,
    fixed .hex "HEX" "0x[0-9a-f]+(u|l|ul|lu)?",
    fixed .string "STRING" "\"([^\"\\r\\n\\\\]|\\\\u[0-9a-f]\x7b4\x7d|\\\\[\\\\\"'trn])*\"",
    fixed .char "CHAR" "'([^'\\r\\n\\\\]|\\\\u[0-9a-f]\x7b4\x7d|\\\\[\\\\\"'trn])'",
    fixed .dateTime "DATETIME" "#[^#\\r\\n]+#",
    fixed .timeSpan "TIMESPAN"
      "##(\\d+\\.)?\\d\x7b2\x7d:\\d\x7b2\x7d(:\\d\x7b2\x7d(\\.\\d\x7b1,7\x7d)?)?#",
    fixed .identifier "IDENTIFIER" "@?[a-z_]\\w*"]

def Options.patterns (o : Options) : List Pattern := o.fixedPatterns ++ o.scannedPatterns

end Formulary.Lexical
