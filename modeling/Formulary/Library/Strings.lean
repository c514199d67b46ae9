import Formulary.Library.Basic

/-!
# The text library

Positions and lengths count characters. Every function takes the text first, so that each can also
be called like a method of a text.
-/

namespace Formulary.Library.Strings

open Library

def ofCodes (codes : List Nat) : Text := Text.ofCodes codes

/-- The position of the first occurrence at or after a position, or minus one. -/
def indexOfFrom (t sub : Text) (start : Int) : Int :=
  let codes := t.codes
  let first := start.toNat
  if codes.length < first then -1
  else
    let rest := ofCodes (codes.drop first)
    match rest.find? sub with
    | some i => first + Text.characterCount (rest.take i)
    | none => -1

/-- The position of the last occurrence, or minus one. -/
def lastIndexOf (t sub : Text) : Int :=
  match t.findLast? sub with
  | some i => Text.characterCount (t.take i)
  | none => -1

def substring (t : Text) (start length : Int) : Except Failure Text :=
  let codes := t.codes
  if start < 0 || length < 0 || codes.length < start + length then .error (.fault .indexOutOfRange)
  else .ok (ofCodes ((codes.drop start.toNat).take length.toNat))

/-- How many characters there are from a position on, by the arithmetic of 32 bits. -/
def restLength (t : Text) (start : Int) : Int :=
  IntKind.int.wrap (IntKind.int.wrap t.characterCount - start)

/-- A text with occurrences of another replaced; an empty one occurs before every character and at
the end. -/
def replaceAll (old new : Text) (skip : Nat) : Text → Text
  | [] => []
  | b :: rest =>
    match skip with
    | n + 1 => replaceAll old new n rest
    | 0 =>
      if old.isPrefixOf (b :: rest) then new ++ replaceAll old new (old.length - 1) rest
      else b :: replaceAll old new 0 rest

def replace (t old new : Text) : Text :=
  if old.isEmpty then (t.glyphs.flatMap fun g => new ++ g.bytes) ++ new else replaceAll old new 0 t

def copies (n : Nat) (t : Text) : Text := (List.replicate n t).flatten

def padding (t : Text) (width pad : Int) : Text :=
  copies (width - t.characterCount).toNat (Text.encodeInt pad)

/-- The first character as a capital, the rest in small letters. -/
def capitalize (t : Text) : Text :=
  match t.glyphs with
  | [] => t
  | g :: _ => Text.encode (Text.upperCode g.code) ++ Text.lower (t.drop g.bytes.length)

/-- The words of a text between blanks; `word` is the one being read. -/
def fieldsFrom (word : Text) : List Text.Glyph → List Text
  | [] => if word.isEmpty then [] else [word]
  | g :: rest =>
    if Text.isSpace g.code then
      if word.isEmpty then fieldsFrom [] rest else word :: fieldsFrom [] rest
    else fieldsFrom (word ++ g.bytes) rest

def fields (t : Text) : List Text := fieldsFrom [] t.glyphs

/-- Whether a character separates the words of a name. -/
def isSeparator (c : Nat) : Bool :=
  c == 0x5F || c == 0x2D || c == 0x20 || c == 0x09 || c == 0x0A || c == 0x0C || c == 0x0D

/-- A name with a blank for each separator and before each capital that follows a small letter or a
digit. -/
def spaced : List Text.Glyph → Text
  | [] => []
  | [g] => if isSeparator g.code then [0x20] else g.bytes
  | g :: h :: rest =>
    let front := if isSeparator g.code then [0x20] else g.bytes
    let turn := (Text.isSmall g.code || Text.isAsciiDigit g.code) && Text.isCapital h.code
    front ++ (if turn then [0x20] else []) ++ spaced (h :: rest)

/-- The words of a name in any of the usual styles. -/
def words (t : Text) : List Text := fields (spaced t.glyphs)

/-- Words joined without blanks, all but the first with a capital. -/
def camelCase (t : Text) : Text :=
  match words t with
  | [] => []
  | w :: rest => Text.lower w ++ (rest.map capitalize).flatten

def join (separator : Text) (parts : List Text) : Text := (parts.intersperse separator).flatten

def joinLower (separator : String) (t : Text) : Text :=
  join (Text.ofString separator) ((words t).map Text.lower)

def text (f : Text → Text) : Function := total [.string] .string fun a => .string (f (textArg a 0))

def test (f : Text → Text → Bool) : Function :=
  total [.string, .string] .bool fun a => .bool (f (textArg a 0) (textArg a 1))

def textsArg (args : List Value) (i : Nat) : List Text :=
  (itemsArg args i).map fun v => textArg [v] 0

def functions : List (String × Function) :=
  [("Len", total [.string] (.int .int) fun a => int (textArg a 0).characterCount),
    ("ToUpper", text Text.upper), ("ToLower", text Text.lower),
    ("Trim", text fun t => (t.trimStartWith Text.isSpace).trimEndWith Text.isSpace),
    ("TrimStart", text (Text.trimStartWith Text.isSpace)),
    ("TrimEnd", text (Text.trimEndWith Text.isSpace)),
    ("Contains", test fun t sub => (t.find? sub).isSome),
    ("StartsWith", test fun t sub => sub.isPrefixOf t),
    ("EndsWith", test fun t sub => sub.isSuffixOf t),
    ("IndexOf", total [.string, .string] (.int .int) fun a =>
      int (indexOfFrom (textArg a 0) (textArg a 1) 0)),
    ("IndexOf", total [.string, .string, .int .int] (.int .int) fun a =>
      int (indexOfFrom (textArg a 0) (textArg a 1) (intArg a 2))),
    ("LastIndexOf", total [.string, .string] (.int .int) fun a =>
      int (lastIndexOf (textArg a 0) (textArg a 1))),
    ("Substring", fallible [.string, .int .int] .string fun a =>
      let t := textArg a 0
      (substring t (intArg a 1) (restLength t (intArg a 1))).map .string),
    ("Substring", fallible [.string, .int .int, .int .int] .string fun a =>
      (substring (textArg a 0) (intArg a 1) (intArg a 2)).map .string),
    ("Replace", total [.string, .string, .string] .string fun a =>
      .string (replace (textArg a 0) (textArg a 1) (textArg a 2))),
    ("Repeat", fallible [.string, .int .int] .string fun a =>
      if intArg a 1 < 0 then .error (.fault .indexOutOfRange)
      else .ok (.string (copies (intArg a 1).toNat (textArg a 0)))),
    ("PadLeft", total [.string, .int .int, .char] .string fun a =>
      .string (padding (textArg a 0) (intArg a 1) (intArg a 2) ++ textArg a 0)),
    ("PadLeft", total [.string, .int .int] .string fun a =>
      .string (padding (textArg a 0) (intArg a 1) 0x20 ++ textArg a 0)),
    ("PadRight", total [.string, .int .int, .char] .string fun a =>
      .string (textArg a 0 ++ padding (textArg a 0) (intArg a 1) (intArg a 2))),
    ("PadRight", total [.string, .int .int] .string fun a =>
      .string (textArg a 0 ++ padding (textArg a 0) (intArg a 1) 0x20)),
    ("Concat", variadic [.slice .string] .string fun a => .string (textsArg a 0).flatten),
    ("Join", variadic [.string, .slice .string] .string fun a =>
      .string (join (textArg a 0) (textsArg a 1))),
    ("Capitalize", text capitalize), ("TitleCase", text Text.title), ("CamelCase", text camelCase),
    ("SnakeCase", text (joinLower "_")), ("KebabCase", text (joinLower "-")),
    ("WordCount", total [.string] (.int .int) fun a => int (fields (textArg a 0)).length)]

def library : Library := { name := "Strings", functions := functions }

end Formulary.Library.Strings
