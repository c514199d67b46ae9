import Formulary.Yaml.Cursor

/-!
# Scalars as they are written

A scalar is written plainly, between quotes, or as a block of lines. Each reader takes the cursor at
the start of the scalar and gives its text and the cursor after it.
-/

namespace Formulary.Yaml

/-- The word of a plain scalar: up to a blank, a colon that ends a word and, within brackets, up to
a bracket or a comma. -/
def plainWord (flow : Bool) : List Char → Place → List Char × Cursor
  | [], place => ([], ⟨[], place⟩)
  | c :: cs, place =>
    if isBlank c || isBreak c || (c == ':' && endsWord cs) ||
      (flow && ",?[]\x7b\x7d".toList.contains c) then
      ([], ⟨c :: cs, place⟩)
    else
      let (word, rest) := plainWord flow cs (place.right 1)
      (c :: word, rest)

/-- The words of a plain scalar after some text and a gap. Its lines are indented to a column,
unless brackets enclose it. The answer also says whether the scalar ends behind a line break. -/
def plainWords (flow : Bool) (least : Int) (start : Place) :
    Nat → List Char → Gap → Cursor → Except Fault (List Char × Bool × Cursor)
  | 0, text, gap, c => .ok (text, gap.isBroken, c)
  | fuel + 1, text, gap, c =>
    if c.atDocumentMark || c.head? == some '#' then .ok (text, gap.isBroken, c)
    else
      match plainWord flow c.rest c.place with
      | ([], c) => .ok (text, gap.isBroken, c)
      | (word, c) =>
        let text := text ++ gap.text ++ word
        if !(c.head?.any fun b => isBlank b || isBreak b) then .ok (text, false, c)
        else
          match readGap least (.blanks []) c.rest c.place with
          | none =>
            .error (.ofText start c.place "found a tab character that violates indentation")
          | some (gap, c) =>
            if !flow && (c.place.column : Int) < least then .ok (text, gap.isBroken, c)
            else plainWords flow least start fuel text gap c

def plainScalar (flow : Bool) (least : Int) (c : Cursor) :
    Except Fault (List Char × Bool × Cursor) :=
  plainWords flow least c.place (c.rest.length + 1) [] (.blanks []) c

def escapedChar? : Char → Option Char
  | '0' => some '\x00'
  | 'a' => some '\x07'
  | 'b' => some '\x08'
  | 't' | '\t' => some '\t'
  | 'n' => some '\n'
  | 'v' => some '\x0b'
  | 'f' => some '\x0c'
  | 'r' => some '\r'
  | 'e' => some '\x1b'
  | ' ' => some ' '
  | '"' => some '"'
  | '\'' => some '\''
  | '\\' => some '\\'
  | 'N' => some '\u0085'
  | '_' => some '\u00a0'
  | 'L' => some '\u2028'
  | 'P' => some '\u2029'
  | _ => none

/-- How many digits follow the letter of a numeric escape. -/
def escapeLength? : Char → Option Nat
  | 'x' => some 2
  | 'u' => some 4
  | 'U' => some 8
  | _ => none

/-- The value of a digit of base sixteen. -/
def hexValue? (c : Char) : Option Nat :=
  if '0' ≤ c && c ≤ '9' then some (c.toNat - '0'.toNat)
  else if 'a' ≤ c && c ≤ 'f' then some (c.toNat - 'a'.toNat + 10)
  else if 'A' ≤ c && c ≤ 'F' then some (c.toNat - 'A'.toNat + 10)
  else none

/-- The character that a number of hexadecimal digits spell. -/
def hexChar (count : Nat) (cs : List Char) : Except String Char :=
  match (cs.take count).mapM hexValue? with
  | none => .error "did not find expected hexdecimal number"
  | some digits =>
    let n := digits.foldl (fun n d => n * 16 + d) 0
    if digits.length < count then .error "did not find expected hexdecimal number"
    else if (0xD800 ≤ n && n ≤ 0xDFFF) || 0x10FFFF < n then
      .error "found invalid Unicode character escape code"
    else .ok (Char.ofNat n)

/-- What a word between quotes is read into: its characters, whether an escaped line break ended it,
and the cursor after it. -/
abbrev QuotedWord := List Char × Bool × Cursor

/-- Reads a word between quotes, up to a blank, a break or the closing quote. A fault is told with
its place. -/
def quotedWord (single : Bool) : Nat → Cursor → Except (String × Place) QuotedWord
  | 0, c => .ok ([], false, c)
  | fuel + 1, c =>
    let go (char : Char) (width : Nat) : Except (String × Place) QuotedWord :=
      (quotedWord single fuel (c.right width)).map fun (word, broken, rest) =>
        (char :: word, broken, rest)
    match c.rest with
    | [] => .ok ([], false, c)
    | a :: cs =>
      if isBlank a || isBreak a then .ok ([], false, c)
      else if single then
        if a == '\'' then if cs.head? == some '\'' then go '\'' 2 else .ok ([], false, c)
        else go a 1
      else if a == '"' then .ok ([], false, c)
      else if a == '\\' then
        match cs with
        | [] => .error ("found unknown escape character", c.place)
        | e :: digits =>
          if isBreak e then .ok ([], true, (c.right 1).lineBreak.2)
          else
            match escapeLength? e with
            | some n =>
              match hexChar n digits with
              | .ok char => go char (2 + n)
              | .error problem => .error (problem, c.place.right 2)
            | none =>
              match escapedChar? e with
              | some char => go char 2
              | none => .error ("found unknown escape character", c.place)
      else go a 1

def quotedRest (single : Bool) (start : Place) : Nat → List Char → Cursor →
    Except Fault (List Char × Cursor)
  | 0, text, c => .ok (text, c)
  | fuel + 1, text, c =>
    if c.atDocumentMark then .error (.ofText start c.place "found unexpected document indicator")
    else if c.rest.isEmpty then .error (.ofText start c.place "found unexpected end of stream")
    else
      match quotedWord single (c.rest.length + 1) c with
      | .error (problem, place) => .error (.ofText start place problem)
      | .ok (word, broken, c) =>
        let text := text ++ word
        if c.head? == some (if single then '\'' else '"') then .ok (text, c.right 1)
        else
          match readGap (-1) (if broken then .breaks [] [] else .blanks []) c.rest c.place with
          | none => .ok (text, c)
          | some (gap, c) => quotedRest single start fuel (text ++ gap.text) c

def quotedScalar (single : Bool) (c : Cursor) : Except Fault (List Char × Cursor) :=
  quotedRest single c.place (c.rest.length + 1) [] (c.right 1)

inductive Chomp where
  | clip
  | strip
  | keep
  deriving DecidableEq, Repr

def Chomp.ofMark? : Char → Option Chomp
  | '+' => some .keep
  | '-' => some .strip
  | _ => none

/-- The header of a block after its indicator: how it is chomped and how deep it is indented, zero
when the first line tells it. -/
def blockHeader (start : Place) (c : Cursor) : Except Fault (Chomp × Nat × Cursor) :=
  let mark (c : Cursor) : Option Chomp × Cursor :=
    match c.head?.bind Chomp.ofMark? with
    | some m => (some m, c.right 1)
    | none => (none, c)
  let depth (c : Cursor) : Except Fault (Nat × Cursor) :=
    match c.head? with
    | some d =>
      if d == '0' then .error (.ofText start c.place "found an indentation indicator equal to 0")
      else if d.isDigit then .ok (d.toNat - '0'.toNat, c.right 1)
      else .ok (0, c)
    | none => .ok (0, c)
  match mark c with
  | (some m, c) => (depth c).map fun (n, c) => (m, n, c)
  | (none, c) => do
    let (n, c) ← depth c
    let (m, c) := if n == 0 then (none, c) else mark c
    .ok (m.getD .clip, n, c)

/-- Reads empty lines and indentation within a block, up to a depth if it is known. The answer has
the breaks and the largest indentation. -/
def blockBreaks (start : Place) (depth : Nat) :
    Nat → List Char → Nat → Cursor → Except Fault (List Char × Nat × Cursor)
  | 0, breaks, widest, c => .ok (breaks, widest, c)
  | fuel + 1, breaks, widest, c =>
    let spaces := (takeHere (· == ' ') c.rest c.place).1.length
    let c := c.right (if depth == 0 then spaces else min spaces (depth - c.place.column))
    let widest := max widest c.place.column
    if (depth == 0 || c.place.column < depth) && c.head? == some '\t' then
      .error (.ofText start c.place "found a tab character where an indentation space is expected")
    else if c.head?.any isBreak then
      let (b, c) := c.lineBreak
      blockBreaks start depth fuel (breaks ++ b) widest c
    else .ok (breaks, widest, c)

/-- The lines of a block after some text, the break of the last line and the breaks of empty
lines. -/
def blockLines (literal : Bool) (start : Place) (depth : Nat) :
    Nat → List Char → List Char → List Char → Bool → Cursor →
      Except Fault (List Char × List Char × List Char × Cursor)
  | 0, text, last, more, _, c => .ok (text, last, more, c)
  | fuel + 1, text, last, more, afterBlank, c =>
    if c.place.column != depth || c.rest.isEmpty then .ok (text, last, more, c)
    else
      let blank := c.head?.any isBlank
      let joint :=
        if !literal && !afterBlank && !blank && last.head? == some '\n' then
          if more.isEmpty then [' '] else []
        else last
      let (line, c) := takeHere (fun a => !isBreak a) c.rest c.place
      let (last, c) := c.lineBreak
      match blockBreaks start depth (c.rest.length + 1) [] 0 c with
      | .error f => .error f
      | .ok (breaks, _, c) =>
        blockLines literal start depth fuel (text ++ joint ++ more ++ line) last breaks blank c

def blockScalar (literal : Bool) (indent : Int) (c : Cursor) :
    Except Fault (List Char × Cursor) := do
  let start := c.place
  let (chomp, given, c) ← blockHeader start (c.right 1)
  let c := c.skip isBlank
  let c := if c.head? == some '#' then c.skip fun a => !isBreak a else c
  if !(c.rest.isEmpty || c.head?.any isBreak) then
    .error (.ofText start c.place "did not find expected comment or line break")
  else
    let c := c.lineBreak.2
    let known := if given == 0 then 0 else given + indent.toNat
    let (breaks, widest, c) ← blockBreaks start known (c.rest.length + 1) [] 0 c
    let depth := if known == 0 then max (max widest (indent + 1).toNat) 1 else known
    let (text, last, more, c) ← blockLines literal start depth (c.rest.length + 1) []
      [] breaks false c
    let tail := match chomp with
      | .clip => last
      | .strip => []
      | .keep => last ++ more
    .ok (text ++ tail, c)

end Formulary.Yaml
