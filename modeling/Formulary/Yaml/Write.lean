import Formulary.Text.Base64
import Formulary.Yaml.Datum

/-!
# Writing documents

Texts are written plainly where they read back as the same text, else between quotes, and as a block
where they have several lines. A document is a list of records, each a list of named texts.
-/

namespace Formulary.Yaml

def oldTruthWords : List String :=
  ["y", "Y", "yes", "Yes", "YES", "on", "On", "ON", "n", "N", "no", "No", "NO", "off", "Off", "OFF"]

def colonParts : List Char → List (List Char)
  | [] => [[]]
  | c :: rest =>
    match c, colonParts rest with
    | ':', parts => [] :: parts
    | c, part :: parts => (c :: part) :: parts
    | c, [] => [[c]]

/-- Whether other readers take a text for a number of base sixty: digits, then after colons numbers
below sixty, the last perhaps with a fraction. -/
def looksSexagesimal (s : String) : Bool :=
  let isPlace (cs : List Char) : Bool :=
    match cs with
    | [d] => d.isDigit
    | [t, d] => '0' ≤ t && t ≤ '5' && d.isDigit
    | _ => false
  match colonParts (Number.spanSign s.toList).2 with
  | first :: places =>
    let leads := match first with
      | d :: more => d.isDigit && more.all fun c => c.isDigit || c == '_'
      | [] => false
    let (inner, last) := (places.dropLast, places.getLastD [])
    let (whole, fraction) := (last.takeWhile (· != '.'), last.dropWhile (· != '.'))
    leads && !places.isEmpty && inner.all isPlace && isPlace whole &&
      (fraction.drop 1).all fun c => c.isDigit || c == '_'
  | [] => false

/-- Whether a plain scalar would not read back as the same text. -/
def readsOtherwise (s : String) : Bool :=
  (Datum.ofPlain s).tag != "!!str" || looksSexagesimal s || oldTruthWords.contains s

def isPrintable (c : Char) : Bool :=
  c == '\n' || (' ' ≤ c && c ≤ '~') || ('\u00a0' ≤ c && c.toNat < 0xFFFE && c != '\ufeff')

/-- Whether a sign of the format stands among characters where it counts. The first flag says that a
blank stands before them, the second that they are the first of all. -/
def hasSign : Bool → Bool → List Char → Bool
  | _, _, [] => false
  | afterBlank, first, c :: rest =>
    let ends := rest.isEmpty || rest.head?.any isBlank
    let here :=
      if first then
        "#,[]\x7b\x7d&*!|>'\"%@`".toList.contains c || ((c == '?' || c == ':' || c == '-') && ends)
      else (c == ':' && ends) || (c == '#' && afterBlank)
    here || hasSign (isBlank c || isBreak c) false rest

structure Style where
  plain : Bool
  single : Bool
  block : Bool

/-- The ways in which characters may be written. -/
def Style.of (cs : List Char) : Style :=
  let marks := cs.take 3 == ['-', '-', '-'] || cs.take 3 == ['.', '.', '.']
  let pairs := cs.zip (cs.drop 1)
  let spaceBreak := pairs.any fun p => p.1 == ' ' && isBreak p.2
  let breakSpace := pairs.any fun p => isBreak p.1 && p.2 == ' '
  let tab := cs.contains '\t'
  let special := cs.any fun c => c != '\t' && !isPrintable c
  let atEnds := (cs.head?.any fun c => c == ' ' || isBreak c) ||
    (cs.getLast?.any fun c => c == ' ' || isBreak c)
  let odd := breakSpace || spaceBreak || tab || special
  { plain := !(atEnds || odd || cs.any isBreak || marks || hasSign true true cs)
    single := !odd
    block := !(cs.getLast? == some ' ' || spaceBreak || special) }

def shortEscape? : Nat → Option Char
  | 0x00 => some '0'
  | 0x07 => some 'a'
  | 0x08 => some 'b'
  | 0x09 => some 't'
  | 0x0A => some 'n'
  | 0x0B => some 'v'
  | 0x0C => some 'f'
  | 0x0D => some 'r'
  | 0x1B => some 'e'
  | 0x22 => some '"'
  | 0x5C => some '\\'
  | 0x85 => some 'N'
  | 0xA0 => some '_'
  | 0x2028 => some 'L'
  | 0x2029 => some 'P'
  | _ => none

/-- A number in capital digits of base sixteen, padded to a width. -/
def hexDigits (width n : Nat) : List Char :=
  let digits := (Nat.toDigits 16 n).map Char.toUpper
  List.replicate (width - digits.length) '0' ++ digits

def escaped (c : Char) : List Char :=
  if isPrintable c && !isBreak c && c != '"' && c != '\\' then [c]
  else
    match shortEscape? c.toNat with
    | some letter => ['\\', letter]
    | none =>
      if c.toNat ≤ 0xFF then '\\' :: 'x' :: hexDigits 2 c.toNat
      else if c.toNat ≤ 0xFFFF then '\\' :: 'u' :: hexDigits 4 c.toNat
      else '\\' :: 'U' :: hexDigits 8 c.toNat

def doubleQuoted (cs : List Char) : List Char := ['"'] ++ cs.flatMap escaped ++ ['"']

/-- Characters between single quotes, where a single quote is written twice. -/
def singleQuoted (cs : List Char) : List Char :=
  ['\''] ++ cs.flatMap (fun c => if c == '\'' then ['\'', '\''] else [c]) ++ ['\'']

/-- The lines of a block, each indented unless it is empty. The flag says that a line starts. -/
def blockBody (indent : Nat) : Bool → List Char → List Char
  | _, [] => []
  | starts, c :: rest =>
    if isBreak c then c :: blockBody indent true rest
    else (if starts then List.replicate indent ' ' else []) ++ c :: blockBody indent false rest

/-- Characters as a block of lines: the header says how deep it is indented, if that does not show,
and what becomes of the breaks at its end. -/
def literalBlock (indent : Nat) (cs : List Char) : List Char :=
  let depth := if cs.head?.any fun c => c == ' ' || isBreak c then ['2'] else []
  let chomp :=
    match cs.reverse with
    | last :: before =>
      if !isBreak last then ['-'] else if before.isEmpty ||
        before.head?.any isBreak then ['+'] else []
    | [] => []
  let body := blockBody indent true cs
  ['|'] ++ depth ++ chomp ++ ['\n'] ++ (if body.getLast?.any isBreak then body.dropLast else body)

/-- A text as the value of a field of a record, whose lines are indented. -/
def writeText (indent : Nat) (t : Text) : List Char :=
  if !t.isUtf8 then "!!binary ".toList ++ (Text.base64 t).toString.toList
  else
    let cs := t.toString.toList
    let style := Style.of cs
    if cs.contains '\n' then if style.block then literalBlock indent cs else doubleQuoted cs
    else if readsOtherwise t.toString then doubleQuoted cs
    else if style.plain then cs
    else if style.single then singleQuoted cs
    else doubleQuoted cs

/-- A record: its first field behind a dash, the others below it. -/
def writeRecord (fields : List (String × Text)) : List Char :=
  (fields.mapIdx fun i (name, t) =>
    (if i == 0 then "- " else "  ").toList ++ name.toList ++ ": ".toList ++
      writeText 4 t ++ ['\n']).flatten

def writeRecords (records : List (List (String × Text))) : Text :=
  Text.ofString (if records.isEmpty then "[]\n" else String.ofList (records.flatMap writeRecord))

end Formulary.Yaml
