import Formulary.Scope.Basic
import Formulary.Lexical.Escape

/-!
# Literals

The constants that literal tokens stand for. A numeral is read together with a minus sign before it,
so that the least number of each signed type can be written.
-/

namespace Formulary.Build

open Lexical (Kind Token)

/-- The failure of a literal whose form is wrong; the token is to blame. -/
def badFormat (detail : String) (image : Text) : Except Failure α :=
  refusedAt .invalidFormat detail image.toString

/-- The failure of a number that fits no type. -/
def tooLarge (image : Text) (negated : Bool) : Except Failure α :=
  let shown := (if negated then "-" else "") ++ image.toString
  refusedAt .constantOverflow s!"numeric literal {shown} does not fit any numeric type"
    image.toString

/-- The letters at the end of an integer numeral. -/
def isIntegerSuffix (c : Char) : Bool := c == 'u' || c == 'U' || c == 'l' || c == 'L'

def hexDigit (c : Char) : Nat :=
  if c.isDigit then c.toNat - '0'.toNat else c.toLower.toNat - 'a'.toNat + 10

/-- The number of an integer numeral and its suffix in small letters. -/
def readInteger (hex : Bool) (image : Text) : Nat × String :=
  let cs := image.byteChars
  let suffix := (cs.reverse.takeWhile isIntegerSuffix).reverse
  let digits := cs.take (cs.length - suffix.length)
  let value :=
    if hex then (digits.drop 2).foldl (fun n c => n * 16 + hexDigit c) 0
    else Number.digitsValue digits
  (value, String.ofList (suffix.map Char.toLower))

/-- The first of some integer types that holds a number. -/
def firstFitting (kinds : List IntKind) (n : Int) : Option Value :=
  (kinds.find? (·.holds n)).map fun k => .int k n

/-- The constant of an integer numeral: the first type its suffix allows that holds the number. A
negative number has a signed type and no unsigned suffix. -/
def integerValue? (integersAsDoubles negated : Bool) (n : Nat) (suffix : String) : Option Value :=
  if !IntKind.ulong.holds n then none
  else if integersAsDoubles then
    let x := Number.doubleOfInt n
    some (.double (if negated then -x else x))
  else if negated then
    match suffix with
    | "" => firstFitting [.int, .long] (-n)
    | "l" => firstFitting [.long] (-n)
    | _ => none
  else
    match suffix with
    | "" => firstFitting [.int, .uint, .long, .ulong] n
    | "u" => firstFitting [.uint, .ulong] n
    | "l" => firstFitting [.long, .ulong] n
    | _ => firstFitting [.ulong] n

def replaceFirst (t old new : Text) : Text :=
  match t.find? old with
  | some i => t.take i ++ new ++ t.drop (i + old.length)
  | none => t

/-- The numeral of a real literal without its suffix, with a point in it and a minus sign if it is
negated. -/
def realBody (o : Lexical.Options) (image : Text) (negated : Bool) : Text × Option Char :=
  let last := image.byteChars.getLast?.map Char.toLower
  let suffix := last.filter fun c => c == 'd' || c == 'f' || c == 'm'
  let body := if suffix.isSome then image.dropLast else image
  let pointed :=
    if o.decimalPoint == '.'.toNat then body
    else replaceFirst body (Text.encode o.decimalPoint) (Text.ofString ".")
  (if negated then Text.ofString "-" ++ pointed else pointed, suffix)

def decimalFault (body : String) : String :=
  let cs := body.toList
  let front := cs.takeWhile fun c => c != 'e' && c != 'E'
  let power := cs.drop (front.length + 1)
  let (_, digits) := Number.spanSign power
  let shown := String.ofList front
  if front.length < cs.length && (digits.isEmpty || !digits.all Char.isDigit) then
    s!"can't convert {body} to decimal: exponent is not numeric"
  else if 1 < front.count '.' then s!"can't convert {shown} to decimal: too many .s"
  else s!"can't convert {shown} to decimal"

/-- The type of a real literal: that of its suffix, or the one the options say. -/
def realType (o : Options) : Option Char → Ty
  | some 'd' => .double
  | some 'f' => .single
  | some 'm' => .decimal
  | _ => o.realLiteral

def realValue (o : Options) (image : Text) (negated : Bool) : Except Failure Value :=
  let (body, suffix) := realBody o.lexical image negated
  let malformed (detail : String) : Except Failure Value :=
    badFormat s!"numeric literal {image.toString}: {detail}" image
  let noFloat := s!"strconv.ParseFloat: parsing {Text.quote body}: invalid syntax"
  match realType o suffix, Number.Numeral.read? body.byteChars with
  | .decimal, some n => .ok (.ofDecimal (Decimal.ofNumeral n))
  | .decimal, none => malformed (decimalFault body.toString)
  | .single, some n =>
    match n.single? with
    | some x => .ok (.single x)
    | none => tooLarge image negated
  | .single, none => malformed noFloat
  | _, some n =>
    match n.double? with
    | some x => .ok (.double x)
    | none => tooLarge image negated
  | _, none => malformed noFloat

def number (o : Options) (kind : Kind) (image : Text) (negated : Bool) :
    Except Failure Element := do
  let value ←
    if kind == .real then realValue o image negated
    else
      let (n, suffix) := readInteger (kind == .hex) image
      match integerValue? o.integersAsDoubles negated n suffix with
      | some v => .ok v
      | none => tooLarge image negated
  .ok (.constant (value.type?.getD .null) value (some ⟨kind, image⟩))

/-- The text between the quotes of a token. -/
def inside (image : Text) : Text := (image.drop 1).dropLast

def plainConstant (t : Ty) (v : Value) : Except Failure Element := .ok (.constant t v none)

def literal (o : Options) (t : Token) : Except Failure Element :=
  let shown := t.image.toString
  match t.kind with
  | .integer | .hex | .real => number o t.kind t.image false
  | .yes => plainConstant .bool (.bool true)
  | .no => plainConstant .bool (.bool false)
  | .null => plainConstant .null .nil
  | .string =>
    match Lexical.unescape (inside t.image) with
    | .ok s => plainConstant .string (.string s)
    | .error fault => badFormat s!"string literal {shown}: {fault.message.toString}" t.image
  | .char =>
    match (Lexical.unescape (inside t.image)).map Text.codes with
    | .ok [c] => plainConstant .char (.char c)
    | _ => badFormat s!"char literal {shown} must hold exactly one character" t.image
  | .dateTime =>
    let pattern := o.lexical.dateFormat
    match Calendar.readDate pattern (inside t.image) with
    | .ok m => plainConstant .dateTime (.dateTime m)
    | .error _ =>
      badFormat s!"datetime literal {shown} does not match format {Text.quote pattern}" t.image
  | .timeSpan =>
    let body := (inside t.image).drop 1
    match Calendar.readSpan body with
    | .ok n => plainConstant .timeSpan (.timeSpan n)
    | .error fault => badFormat s!"timespan literal {shown}: {fault.message body}" t.image
  | k => refusedAt .syntaxError s!"unexpected token {k.name}" shown

end Formulary.Build
