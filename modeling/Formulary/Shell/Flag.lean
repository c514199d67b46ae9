import Formulary.Failure
import Formulary.Text.Cut
import Formulary.Text.Quote
import Formulary.Yaml.Datum

/-!
# Flags of a command line

A flag is written with two dashes and its name, or with one dash and its letter; letters can stand
together. A switch takes no value unless one is joined to it; other flags take theirs joined or as
the next word.
-/

namespace Formulary.Shell

inductive FlagKind where
  | switch
  | word
  | number
  deriving DecidableEq, Repr

structure Flag where
  name : String
  kind : FlagKind
  letter : Option Char := none
  deriving DecidableEq, Repr

/-- The dash, the equals sign and the words that are made of dashes. -/
def dash : UInt8 := 0x2D

def startsDash (w : Text) : Bool := w.head? == some dash

def startsDashes (w : Text) : Bool := w.take 2 == [dash, dash]

namespace Flag

def ofName? (flags : List Flag) (name : Text) : Option Flag :=
  flags.find? fun f => Text.ofString f.name == name

def ofLetter? (flags : List Flag) (letter : UInt8) : Option Flag :=
  flags.find? fun f => f.letter.any fun c => c.toNat == letter.toNat

def title (f : Flag) : String :=
  match f.letter with
  | some c => s!"-{c}, --{f.name}"
  | none => s!"--{f.name}"

def valueFault? (f : Flag) (value : Text) : Option String :=
  match f.kind with
  | .word => none
  | .switch =>
    let spellings :=
      ["1", "t", "T", "TRUE", "true", "True", "0", "f", "F", "FALSE", "false", "False"]
    if spellings.contains value.toString then none
    else some s!"strconv.ParseBool: parsing {Text.quote value}: invalid syntax"
  | .number =>
    let digits := (Number.spanSign value.toString.toList).2
    match Yaml.naturalOfAnyBase? digits, Yaml.integer? value.toString.toList with
    | none, _ => some s!"strconv.ParseInt: parsing {Text.quote value}: invalid syntax"
    | some n, some _ =>
      if n < Nat.pow 2 63 || startsDash value then none
      else some s!"strconv.ParseInt: parsing {Text.quote value}: value out of range"
    | some _, none => some s!"strconv.ParseInt: parsing {Text.quote value}: value out of range"

def isOn (value : Text) : Bool := ["1", "t", "T", "TRUE", "true", "True"].contains value.toString

end Flag

abbrev Setting := Flag × Text

def given (f : Flag) (value : Text) : Except Failure Setting :=
  match f.valueFault? value with
  | some fault =>
    .error (.plain
      s!"invalid argument {Text.quote value} for {Text.quoteString f.title} flag: {fault}")
  | none => .ok (f, value)

def switchedOn : Text := Text.ofString "true"

/-- A word with two dashes, and the words after it: the setting, and whether it takes the next
word. -/
def readLong (flags : List Flag) (w : Text) (next : Option Text) :
    Except Failure (Setting × Bool) :=
  let body := w.drop 2
  if body.head? == some dash || body.head? == some 0x3D then
    .error (.plain s!"bad flag syntax: {w.toString}")
  else
    let (name, joined) := match Text.cut? 0x3D body with
      | some (name, value) => (name, some value)
      | none => (body, none)
    match Flag.ofName? flags name with
    | none => .error (.plain s!"unknown flag: --{name.toString}")
    | some f =>
      match joined, next with
      | some value, _ => (given f value).map fun s => (s, false)
      | none, next =>
        if f.kind == FlagKind.switch then (given f switchedOn).map fun s => (s, false)
        else
          match next with
          | some value => (given f value).map fun s => (s, true)
          | none => .error (.plain s!"flag needs an argument: --{name.toString}")

/-- The letters behind one dash: their settings, and whether the last takes the next word. -/
def readLetters (flags : List Flag) (next : Option Text) : Text →
    Except Failure (List Setting × Bool)
  | [] => .ok ([], false)
  | letter :: rest =>
    match Flag.ofLetter? flags letter with
    | none =>
      .error (.plain
        s!"unknown shorthand flag: {Text.quoteCode letter.toNat} in -{Text.toString (letter :: rest)}")
    | some f =>
      match rest with
      | 0x3D :: b :: value => (given f (b :: value)).map fun s => ([s], false)
      | rest =>
        if f.kind == .switch then do
          let s ← given f switchedOn
          let (more, takes) ← readLetters flags next rest
          .ok (s :: more, takes)
        else if !rest.isEmpty then (given f rest).map fun s => ([s], false)
        else
          match next with
          | some value => (given f value).map fun s => ([s], true)
          | none =>
            .error (.plain
              s!"flag needs an argument: {Text.quoteCode letter.toNat} in -{Text.toString (letter :: rest)}")

/-- Reads the words of a command line: the settings in their order and the words that are no flags.
After two dashes alone no word is a flag. The number says how many words were taken by the flag
before. -/
def readWords (flags : List Flag) : Nat → List Text → Except Failure (List Setting × List Text)
  | _, [] => .ok ([], [])
  | taken + 1, _ :: rest => readWords flags taken rest
  | 0, w :: rest =>
    if !startsDash w || w.length == 1 then
      (readWords flags 0 rest).map fun (settings, words) => (settings, w :: words)
    else if startsDashes w then
      if w.length == 2 then .ok ([], rest)
      else do
        let (s, takes) ← readLong flags w rest.head?
        let (settings, words) ← readWords flags (if takes then 1 else 0) rest
        .ok (s :: settings, words)
    else do
      let (s, takes) ← readLetters flags rest.head? (w.drop 1)
      let (settings, words) ← readWords flags (if takes then 1 else 0) rest
      .ok (s ++ settings, words)

def takesNext (flags : List Flag) (w : Text) : Bool :=
  let isSwitch (f : Option Flag) : Bool := (f.map (·.kind)) == some .switch
  !w.contains 0x3D &&
    ((startsDashes w && !isSwitch (Flag.ofName? flags (w.drop 2))) ||
      (startsDash w && w.length == 2 && !isSwitch ((w.drop 1).head?.bind (Flag.ofLetter? flags))))

/-- The words that are neither flags nor their values, as far as they can be told before a command
is known. -/
def bareWords (flags : List Flag) : List Text → List Text
  | [] => []
  | w :: rest =>
    if w == [dash, dash] then []
    else if takesNext flags w then
      match rest with
      | _ :: second :: more => bareWords flags (second :: more)
      | _ => []
    else if w.isEmpty || startsDash w then bareWords flags rest
    else w :: bareWords flags rest

/-- The words without the first bare occurrence of one. -/
def withoutWord (flags : List Flag) (word : Text) : List Text → List Text
  | [] => []
  | w :: rest =>
    if w == [dash, dash] then w :: rest
    else if takesNext flags w then
      match rest with
      | value :: more => w :: value :: withoutWord flags word more
      | [] => [w]
    else if w == word && !startsDash w then rest
    else w :: withoutWord flags word rest

end Formulary.Shell
