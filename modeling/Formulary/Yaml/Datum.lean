import Formulary.Value.Basic
import Formulary.Number.Literal
import Formulary.Yaml.Node

/-!
# What scalars mean

A plain scalar is what it looks like: nothing, a truth value, a number, a date or else a text. A tag
can ask for one of these.
-/

namespace Formulary.Yaml

inductive Datum where
  | null
  | bool (b : Bool)
  | int (n : Int)
  | float (x : Float)
  | time (t : Calendar.Moment)
  | text

/-- The tag of what a scalar means. -/
def Datum.tag : Datum → String
  | .null => "!!null"
  | .bool _ => "!!bool"
  | .int _ => "!!int"
  | .float _ => "!!float"
  | .time _ => "!!timestamp"
  | .text => "!!str"

def words : List (List String × Datum) :=
  [(["true", "True", "TRUE"], .bool true), (["false", "False", "FALSE"], .bool false),
    (["", "~", "null", "Null", "NULL"], .null), ([".nan", ".NaN", ".NAN"], .float (0.0 / 0.0)),
    ([".inf", ".Inf", ".INF", "+.inf", "+.Inf", "+.INF"], .float (1.0 / 0.0)),
    (["-.inf", "-.Inf", "-.INF"], .float (-1.0 / 0.0))]

def digitsIn? (base : Nat) (cs : List Char) : Option Nat :=
  if cs.isEmpty then none
  else
    cs.foldlM (fun n c => (hexValue? c).bind fun d =>
      if d < base then some (n * base + d) else none) 0

/-- Reads a natural number whose first characters tell its base: `0x`, `0b`, `0o`, or a zero for
base eight. -/
def naturalOfAnyBase? : List Char → Option Nat
  | '0' :: x :: cs =>
    if x == 'x' || x == 'X' then digitsIn? 16 cs
    else if x == 'b' || x == 'B' then digitsIn? 2 cs
    else if x == 'o' || x == 'O' then digitsIn? 8 cs
    else digitsIn? 8 (x :: cs)
  | cs => digitsIn? 10 cs

/-- Reads an integer of 64 bits, or without a sign a natural number of 64 bits. -/
def integer? (cs : List Char) : Option Int :=
  match cs with
  | '-' :: rest => (naturalOfAnyBase? rest).bind fun n =>
      if n ≤ Nat.pow 2 63 then some (-(n : Int)) else none
  | '+' :: rest => (naturalOfAnyBase? rest).bind fun n => if n < Nat.pow 2 63 then some n else none
  | cs => (naturalOfAnyBase? cs).bind fun n => if n < Nat.pow 2 64 then some n else none

/-- Whether characters spell a float: digits with at most one point, then perhaps an exponent. -/
def looksFloat (cs : List Char) : Bool :=
  let cs := (Number.spanSign cs).2
  let (whole, rest) := Number.spanDigits cs
  let (fraction, rest) := match rest with
    | '.' :: more => Number.spanDigits more
    | rest => ([], rest)
  let mantissa := !whole.isEmpty || !fraction.isEmpty
  match rest with
  | [] => mantissa
  | e :: more =>
    let digits := (Number.spanSign more).2
    mantissa && (e == 'e' || e == 'E') && !digits.isEmpty && digits.all Char.isDigit

def dateLayouts : List String :=
  ["2006-1-2T15:4:5.999999999Z07:00", "2006-1-2t15:4:5.999999999Z07:00",
    "2006-1-2 15:4:5.999999999", "2006-1-2"]

/-- Reads a date, which starts with a year of four digits and a dash. -/
def time? (s : String) : Option Calendar.Moment :=
  let (year, rest) := Number.spanDigits s.toList
  if year.length != 4 || rest.head? != some '-' then none
  else
    dateLayouts.findSome? fun layout =>
      (Calendar.readMoment (Text.ofString layout) (Text.ofString s)).toOption

def Datum.ofPlain (s : String) : Datum :=
  match words.find? (·.1.contains s) with
  | some (_, d) => d
  | none =>
    match s.toList with
    | [] => .text
    | c :: _ =>
      if c == '.' then ((Number.readDouble? s).map .float).getD .text
      else if c == '+' || c == '-' || c.isDigit then
        let digits := s.toList.filter (· != '_')
        match time? s, integer? digits with
        | some t, _ => .time t
        | none, some n => .int n
        | none, none =>
          if looksFloat digits then
            ((Number.readDouble? (String.ofList digits)).map .float).getD .text
          else .text
      else .text

def resolvableTags : List String := ["!!str", "!!bool", "!!int", "!!float", "!!null", "!!timestamp"]

/-- What a scalar means that is written in some way and perhaps has a tag. -/
def Datum.of (tag : Option String) (plain : Bool) (s : String) : Except Fault Datum :=
  match tag with
  | none => .ok (if plain then .ofPlain s else .text)
  | some t =>
    if t == "!!str" || !resolvableTags.contains t then .ok .text
    else
      match Datum.ofPlain s with
      | .int n => if t == "!!float" then .ok (.float (Number.doubleOfInt n)) else checked t (.int n)
      | d => checked t d
where
  checked (t : String) (d : Datum) : Except Fault Datum :=
    if d.tag == t then .ok d else .error ⟨s!"cannot decode {d.tag} `{s}` as a {t}", 0⟩

def Node.tagName : Node → String
  | .scalar _ (some t) _ _ | .sequence _ (some t) _ | .mapping _ (some t) _ _ => t
  | .scalar _ none plain s => if plain then (Datum.ofPlain s).tag else "!!str"
  | .sequence _ none _ => "!!seq"
  | .mapping _ none _ _ => "!!map"

end Formulary.Yaml
