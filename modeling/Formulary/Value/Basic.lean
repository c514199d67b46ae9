import Formulary.Value.Ty
import Formulary.Calendar.Layout
import Formulary.Calendar.Span
import Formulary.Number.Decimal
import Formulary.Number.Shortest

/-!
# Values

The values of expressions. Slices, maps, pointers and decimals have an identity besides their
content: the mark says which storage they share.
-/

namespace Formulary

/-- The storage of a value: none at all, a new one that nothing else shares, the one that all empty
slices share, or one that can be recognised. -/
inductive Mark where
  | none
  | fresh
  | empty
  | at (n : Nat)
  deriving DecidableEq, Repr, Inhabited

/-- Whether two marks mean the same storage. -/
def Mark.same : Mark → Mark → Bool
  | .at a, .at b => a == b
  | .empty, .empty => true
  | .none, .none => true
  | _, _ => false

/-- A value. `nil` is no value at all; `missing` is a pointer, slice or map that points nowhere. -/
inductive Value where
  | nil
  | null
  | bool (b : Bool)
  | int (kind : IntKind) (n : Int)
  | enum (name : String) (kind : IntKind) (n : Int)
  | char (code : Int)
  | single (x : Float32)
  | double (x : Float)
  | decimal (d : Decimal) (mark : Mark)
  | string (t : Text)
  | dateTime (t : Calendar.Moment)
  | timeSpan (ns : Int)
  | record (name : String) (fields : List Value)
  | missing (type : Ty)
  | pointer (target : Ty) (mark : Mark) (content : Value) (label : Option String := none)
  | slice (element : Ty) (mark : Mark) (items : List Value) (label : Option String := none)
  | array (element : Ty) (items : List Value) (label : Option String := none)
  | map (key value : Ty) (mark : Mark) (keys values : List Value) (label : Option String := none)
  deriving Inhabited

namespace Value

/-- The type of a value; `nil` has none. -/
def type? : Value → Option Ty
  | .nil => .none
  | .null => some .null
  | .bool _ => some .bool
  | .int k _ => some (.int k)
  | .enum name k _ => some (.enum name k)
  | .char _ => some .char
  | .single _ => some .single
  | .double _ => some .double
  | .decimal .. => some .decimal
  | .string _ => some .string
  | .dateTime _ => some .dateTime
  | .timeSpan _ => some .timeSpan
  | .record name _ => some (.record name)
  | .missing t => some t
  | .pointer t _ _ label => some (.pointer t label)
  | .slice t _ _ label => some (.slice t label)
  | .array t items label => some (.array items.length t label)
  | .map k v _ _ _ label => some (.map k v label)

def relabel (label : Option String) : Value → Value
  | .missing t => .missing (t.relabel label)
  | .pointer t mark v _ => .pointer t mark v label
  | .slice t mark items _ => .slice t mark items label
  | .array t items _ => .array t items label
  | .map k t mark keys values _ => .map k t mark keys values label
  | v => v

theorem type?_relabel (v : Value) (label : Option String) :
    (v.relabel label).type? = v.type?.map (·.relabel label) := by
  cases v <;> rfl

/-- Whether a value is `nil` or points nowhere. -/
def isNil : Value → Bool
  | .nil | .missing _ => true
  | _ => false

/-- The integer of a type that a number equals modulo its width. -/
def ofInt (k : IntKind) (n : Int) : Value := .int k (k.wrap n)

def ofDecimal (d : Decimal) : Value := .decimal d .fresh

def ofString (s : String) : Value := .string (Text.ofString s)

def ofItems (element : Ty) (items : List Value) : Value :=
  .slice element (if items.isEmpty then .empty else .fresh) items

/-- The text of a character; a number that is no character gives the replacement. -/
def charText (code : Int) : Text := Text.encodeInt code

/-- The text of a value of an enumeration: the names of days and months, the number for all
others. -/
def enumText (name : String) (n : Int) : String :=
  if name == "time.Weekday" then Calendar.weekdayName n
  else if name == "time.Month" then Calendar.monthName n
  else toString n

def speaks : Ty → Bool
  | .char | .decimal | .dateTime | .timeSpan => true
  | .enum name _ => name == "time.Weekday" || name == "time.Month"
  | _ => false

/-- What is printed for a pointer within a value: an address, which means nothing outside a run. -/
def address : Text := Text.ofString "0xc000000000"

/-- A key under which the entries of a map are listed: numbers by size, then texts. -/
def listed : Value → Int × Text
  | .int _ n | .enum _ _ n | .char n | .timeSpan n => (n, [])
  | .string t => (0, t)
  | _ => (0, [])

def listedBefore (a b : Value) : Bool :=
  a.listed.1 < b.listed.1 || (a.listed.1 == b.listed.1 && !(decide (b.listed.2 < a.listed.2)))

mutual

/-- A value as it is printed. `top` says that it does not stand within another value. -/
def shownAt (top : Bool) : Value → Text
  | .nil => Text.ofString "<nil>"
  | .null => Text.ofString "\x7b\x7d"
  | .bool b => Text.ofString (if b then "true" else "false")
  | .int _ n => Text.ofString (toString n)
  | .enum name _ n => Text.ofString (enumText name n)
  | .char c => charText c
  | .single x => Text.ofString (Number.singleText x)
  | .double x => Text.ofString (Number.doubleText x)
  | .decimal d _ => Text.ofString d.text
  | .string t => t
  | .dateTime t => Text.ofString t.text
  | .timeSpan n => Text.ofString (Calendar.spanText n)
  | .record _ fields => Text.ofString "\x7b" ++ shownAll fields ++ Text.ofString "\x7d"
  | .missing (.slice ..) => Text.ofString "[]"
  | .missing (.map ..) => Text.ofString "map[]"
  | .missing _ => Text.ofString "<nil>"
  | .pointer t _ v label =>
    if label.isNone && speaks t then shownAt false v
    else
      match v with
      | .record .. | .slice .. | .array .. | .map .. | .dateTime _ | .decimal .. =>
        if top then Text.ofString "&" ++ shownAt false v else address
      | _ => address
  | .slice _ _ items _ => Text.ofString "[" ++ shownAll items ++ Text.ofString "]"
  | .array _ items _ => Text.ofString "[" ++ shownAll items ++ Text.ofString "]"
  | .map _ _ _ keys values _ =>
    let entries := (keys.zip (shownEach keys)).zip (shownEach values)
    let sorted := entries.mergeSort fun a b => listedBefore a.1.1 b.1.1
    let shown := sorted.map fun e => e.1.2 ++ Text.ofString ":" ++ e.2
    Text.ofString "map[" ++ (shown.intersperse (Text.ofString " ")).flatten ++ Text.ofString "]"

def shownAll : List Value → Text
  | [] => []
  | [v] => shownAt false v
  | v :: rest => shownAt false v ++ Text.ofString " " ++ shownAll rest

def shownEach : List Value → List Text
  | [] => []
  | v :: rest => shownAt false v :: shownEach rest

end

def shown (v : Value) : Text := v.shownAt true

/-- The text a value gives when it is joined to a string: nothing for a missing value that has a
text of its own, else what is printed. -/
def joined : Value → Text
  | .nil => []
  | .missing (.pointer t) => if speaks t then [] else Text.ofString "<nil>"
  | v => v.shown

end Value

end Formulary
