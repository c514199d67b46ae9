import Formulary.Text.Case

/-!
# Types

The types of expressions: the built-in types of the language, the machine-sized integers, types
declared by a host (records, enumerations, interfaces), and pointers, slices, arrays and maps over
them. A host can declare a pointer, slice, array or map as a type of its own; what it is called then
is its label.
-/

namespace Formulary

/-- The integer types, by width and sign; `machine` and `umachine` are the ones of the machine's
word. -/
inductive IntKind where
  | sbyte
  | byte
  | short
  | ushort
  | int
  | uint
  | long
  | ulong
  | machine
  | umachine
  deriving DecidableEq, Repr, Inhabited

namespace IntKind

def bits : IntKind → Nat
  | sbyte | byte => 8
  | short | ushort => 16
  | int | uint => 32
  | long | ulong | machine | umachine => 64

def unsigned : IntKind → Bool
  | byte | ushort | uint | ulong | umachine => true
  | _ => false

def low (k : IntKind) : Int := if k.unsigned then 0 else -(Nat.pow 2 (k.bits - 1))

def high (k : IntKind) : Int :=
  if k.unsigned then Nat.pow 2 k.bits - 1 else Nat.pow 2 (k.bits - 1) - 1

/-- Whether a number is a value of the type. -/
def holds (k : IntKind) (n : Int) : Bool := k.low ≤ n && n ≤ k.high

/-- The value of the type that a number equals modulo the width. -/
def wrap (k : IntKind) (n : Int) : Int :=
  if k.unsigned then n.emod (Nat.pow 2 k.bits) else n.bmod (Nat.pow 2 k.bits)

/-- The machine's integers seen as the 64-bit ones. -/
def normal : IntKind → IntKind
  | machine => long
  | umachine => ulong
  | k => k

/-- The name in the language; the machine's integers share those of the 32-bit ones. -/
def name : IntKind → String
  | sbyte => "sbyte"
  | byte => "byte"
  | short => "short"
  | ushort => "ushort"
  | int | machine => "int"
  | uint | umachine => "uint"
  | long => "long"
  | ulong => "ulong"

def native : IntKind → String
  | sbyte => "int8"
  | byte => "uint8"
  | short => "int16"
  | ushort => "uint16"
  | int => "int32"
  | uint => "uint32"
  | long => "int64"
  | ulong => "uint64"
  | machine => "int"
  | umachine => "uint"

end IntKind

/-- A type. Records, enumerations and interfaces are known by the name under which a host declares
them. -/
inductive Ty where
  | bool
  | int (kind : IntKind)
  | char
  | single
  | double
  | decimal
  | string
  | dateTime
  | timeSpan
  | null
  | object
  | enum (name : String) (kind : IntKind)
  | record (name : String)
  | face (name : String)
  | pointer (target : Ty) (label : Option String := none)
  | slice (element : Ty) (label : Option String := none)
  | array (size : Nat) (element : Ty) (label : Option String := none)
  | map (key value : Ty) (label : Option String := none)
  deriving DecidableEq, Repr, Inhabited

namespace Ty

def error : Ty := .face "error"

/-- The types of the language with their names. -/
def builtins : List (String × Ty) :=
  [("boolean", .bool), ("byte", .int .byte), ("sbyte", .int .sbyte), ("short", .int .short),
    ("ushort", .int .ushort), ("int", .int .int), ("uint", .int .uint), ("long", .int .long),
    ("ulong", .int .ulong), ("single", .single), ("double", .double), ("decimal", .decimal),
    ("char", .char), ("object", .object), ("string", .string), ("datetime", .dateTime),
    ("timespan", .timeSpan)]

/-- The built-in type of a name, in any letter case. -/
def builtin? (name : Text) : Option Ty :=
  (builtins.find? fun b => Text.ofString b.1 == Text.simpleLower name).map (·.2)

/-- The name of a type for the host's programmer. -/
def native : Ty → String
  | .bool => "bool"
  | .int k => k.native
  | .char => "types.Char"
  | .single => "float32"
  | .double => "float64"
  | .decimal => "decimal.Decimal"
  | .string => "string"
  | .dateTime => "time.Time"
  | .timeSpan => "time.Duration"
  | .null => "types.Null"
  | .object => "interface \x7b\x7d"
  | .enum name _ | .record name | .face name => name
  | .pointer _ (some label) | .slice _ (some label) | .array _ _ (some label)
  | .map _ _ (some label) => label
  | .pointer t none => "*" ++ t.native
  | .slice t none => "[]" ++ t.native
  | .array n t none => s!"[{n}]" ++ t.native
  | .map k v none => "map[" ++ k.native ++ "]" ++ v.native

/-- The name shown to writers of expressions: that of the language, if the type is built in. -/
def name : Ty → String
  | .bool => "boolean"
  | .int k => k.name
  | .char => "char"
  | .single => "single"
  | .double => "double"
  | .decimal => "decimal"
  | .string => "string"
  | .dateTime => "datetime"
  | .timeSpan => "timespan"
  | .null => "null"
  | .object => "object"
  | t => t.native

def nameOf : Option Ty → String
  | some t => t.name
  | none => "void"

def isIntegral : Ty → Bool
  | .int _ => true
  | _ => false

def isUnsigned : Ty → Bool
  | .int k => k.unsigned
  | _ => false

/-- One of the binary floating-point types. -/
def isReal : Ty → Bool
  | .single | .double => true
  | _ => false

/-- An integer, real or character type. -/
def isNumeric : Ty → Bool
  | .int _ | .single | .double | .char => true
  | _ => false

def isNumber (t : Ty) : Bool := t.isNumeric || t == .decimal

/-- A named integer type of the host. -/
def isEnum : Ty → Bool
  | .enum .. => true
  | _ => false

/-- An interface: object, or one declared by the host. -/
def isInterface : Ty → Bool
  | .object | .face _ => true
  | _ => false

def isNullable : Ty → Bool
  | .null | .object | .face _ | .pointer .. | .slice .. | .map .. => true
  | _ => false

def relabel (label : Option String) : Ty → Ty
  | .pointer t _ => .pointer t label
  | .slice t _ => .slice t label
  | .array n t _ => .array n t label
  | .map k v _ => .map k v label
  | t => t

def label? : Ty → Option String
  | .pointer _ label | .slice _ label | .array _ _ label | .map _ _ label => label
  | _ => none

/-- What a type is made of, whatever it is called. -/
def underlying (t : Ty) : Ty := t.relabel none

/-- A pointer, slice, array or map without a label. -/
def isUnlabelled : Ty → Bool
  | .pointer _ none | .slice _ none | .array _ _ none | .map _ _ none => true
  | _ => false

theorem relabel_label (t : Ty) : t.relabel t.label? = t := by
  cases t <;> rfl

theorem relabel_relabel (t : Ty) (label other : Option String) :
    (t.relabel label).relabel other = t.relabel other := by
  cases t <;> rfl

/-- Types that are made of the same are the same under one label. -/
theorem relabel_of_underlying {t u : Ty} (h : t.underlying = u.underlying) :
    t.relabel u.label? = u := by
  rw [← relabel_relabel t none, ← underlying, h, underlying, relabel_relabel, relabel_label]

/-- The width of an integer or character type; 64 for all others. -/
def bits : Ty → Nat
  | .int k => k.bits
  | .char => 32
  | _ => 64

/-- The place of a type on the ladder of widening conversions; zero if it is not on it. -/
def rank : Ty → Nat
  | .int .byte => 1
  | .int .sbyte => 2
  | .char => 3
  | .int .short => 4
  | .int .ushort => 5
  | .int .int => 6
  | .int .uint => 7
  | .int .long | .int .machine => 8
  | .int .ulong | .int .umachine => 9
  | .single => 10
  | .double | .decimal => 11
  | .bool => 12
  | .dateTime => 13
  | _ => 0

/-- The type with the machine's integers seen as the 64-bit ones. -/
def normal : Ty → Ty
  | .int k => .int k.normal
  | t => t

/-- Reads a type written with `[]T`, `*T`, `[n]T` and `map[K]V` over names. -/
def readFrom (named : String → Option Ty) : Nat → List Char → Option Ty
  | 0, _ => none
  | _ + 1, [] => none
  | fuel + 1, '*' :: rest => (readFrom named fuel rest).map .pointer
  | fuel + 1, '[' :: ']' :: rest => (readFrom named fuel rest).map .slice
  | fuel + 1, cs =>
    match cs with
    | '[' :: rest =>
      let digits := rest.takeWhile Char.isDigit
      (readFrom named fuel (rest.drop (digits.length + 1))).map
        (.array (digits.foldl (fun n d => n * 10 + (d.toNat - '0'.toNat)) 0))
    | 'm' :: 'a' :: 'p' :: '[' :: rest =>
      let key := rest.takeWhile (· != ']')
      match readFrom named fuel key, readFrom named fuel (rest.drop (key.length + 1)) with
      | some k, some v => some (.map k v)
      | _, _ => none
    | _ => named (String.ofList cs)

def read? (named : String → Option Ty) (s : String) : Option Ty :=
  readFrom named (s.length + 1) s.toList

end Ty

/-- The parameter and result types of a function; a variadic one takes its last parameter, a slice,
as any number of arguments. -/
structure Signature where
  params : List Ty
  variadic : Bool := false
  results : List Ty
  deriving DecidableEq, Repr, Inhabited

namespace Signature

/-- The parameters and results as the host's programmer writes them. -/
def shape (s : Signature) : String :=
  let last := s.params.length - 1
  let param (p : Ty × Nat) : String :=
    match p.1 with
    | .slice t => if s.variadic && p.2 == last then "..." ++ t.native else p.1.native
    | t => t.native
  let params := "(" ++ ", ".intercalate (s.params.zipIdx.map param) ++ ")"
  match s.results with
  | [] => params
  | [r] => params ++ " " ++ r.native
  | rs => params ++ " (" ++ ", ".intercalate (rs.map Ty.native) ++ ")"

def native (s : Signature) : String := "func" ++ s.shape

/-- The type of the value the function gives, if it gives one: its only result, or the first of two
when the second is an error. -/
def value? (s : Signature) : Option Ty :=
  match s.results with
  | [t] => if t == .error then none else some t
  | [t, e] => if e == .error then some t else none
  | _ => none

/-- Whether a host may register a function with these results: none, one, or one and an error. -/
def isImportable (s : Signature) : Bool :=
  match s.results with
  | [] | [_] => true
  | [_, e] => e == .error
  | _ => false

/-- The type argument `i` arrives at when arguments are passed one by one. -/
def paramType? (s : Signature) (i : Nat) : Option Ty :=
  if s.variadic && s.params.length ≤ i + 1 then
    match s.params.getLast? with
    | some (.slice t) => some t
    | t => t
  else s.params[i]?

end Signature

end Formulary
