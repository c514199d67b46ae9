import Formulary.Yaml.Scalar

/-!
# The tokens of a document

The indentation of a line closes the block collections that are deeper and opens one where an entry
or a key starts further right. A key without a mark of its own is found out only by the colon behind
it: until then its token is a candidate, and the tokens of the key are put in front of it later.
-/

namespace Formulary.Yaml

/-- A token that may turn out to be a key. It has to be one where it stands in the column of its
block. -/
structure Candidate where
  required : Bool
  token : Nat
  place : Place

/-- The state of reading: the columns of the open blocks, the innermost first, and a candidate for
each level of brackets, the innermost first. -/
structure Scan where
  cursor : Cursor
  tokens : Array Token := #[⟨.streamStart, {}⟩]
  indent : Int := -1
  indents : List Int := []
  candidates : List (Option Candidate) := [none]
  keyAllowed : Bool := true

namespace Scan

def inFlow (s : Scan) : Bool := 1 < s.candidates.length

def place (s : Scan) : Place := s.cursor.place

def push (s : Scan) (sign : Sign) (place : Place) : Scan :=
  { s with tokens := s.tokens.push ⟨sign, place⟩ }

/-- The state with a token before the one of a number. -/
def insert (s : Scan) (n : Nat) (sign : Sign) (place : Place) : Scan :=
  { s with tokens := (s.tokens.extract 0 n).push ⟨sign, place⟩ ++ s.tokens.extract n s.tokens.size }

def fault (s : Scan) (problem : String) : Except Fault Scan :=
  .error (.ofText s.place s.place problem)

/-- Closes blocks that start right of a column. -/
def closeFrom (column : Int) (place : Place) : Int → List Int → Array Token →
    Int × List Int × Array Token
  | indent, [], ts => (indent, [], ts)
  | indent, outer :: rest, ts =>
    if column < indent then closeFrom column place outer rest (ts.push ⟨.blockEnd, place⟩)
    else (indent, outer :: rest, ts)

/-- Closes the blocks that start right of a column; within brackets there are none. -/
def unroll (s : Scan) (column : Int) : Scan :=
  if s.inFlow then s
  else
    let (indent, indents, tokens) := closeFrom column s.place s.indent s.indents s.tokens
    { s with indent := indent, indents := indents, tokens := tokens }

/-- Opens a block at a column, if it is right of the blocks that are open; its token goes before the
one of a number. -/
def roll (s : Scan) (column : Nat) (n : Nat) (sign : Sign) (place : Place) : Scan :=
  if s.inFlow || (column : Int) ≤ s.indent then s
  else ({ s with indent := column, indents := s.indent :: s.indents }).insert n sign place

def candidate? (s : Scan) : Option Candidate := s.candidates.head?.join

/-- The state with another candidate of the innermost level. -/
def withCandidate (s : Scan) (c : Option Candidate) : Scan :=
  { s with candidates := c :: s.candidates.tail }

def missingColon (s : Scan) (c : Candidate) : Fault :=
  .ofText c.place s.place "could not find expected ':'"

def dropCandidate (s : Scan) : Except Fault Scan :=
  match s.candidate? with
  | some c => if c.required then .error (s.missingColon c) else .ok (s.withCandidate none)
  | none => .ok s

/-- Takes the next token for a candidate, where a key may stand. -/
def saveCandidate (s : Scan) : Except Fault Scan :=
  if !s.keyAllowed then .ok s
  else
    let required := !s.inFlow && s.indent == (s.place.column : Int)
    (s.dropCandidate).map fun s => s.withCandidate (some ⟨required, s.tokens.size, s.place⟩)

/-- Whether the colon of a candidate can still come: on its line and not too far away. -/
def isLive (s : Scan) (c : Candidate) : Bool :=
  s.place.line ≤ c.place.line && s.place.index ≤ c.place.index + 1024

def liveCandidate (s : Scan) : Except Fault (Option Candidate) :=
  match s.candidate? with
  | none => .ok none
  | some c =>
    if s.isLive c then .ok (some c)
    else if c.required then .error (s.missingColon c)
    else .ok none

/-- A token of some characters at the cursor. -/
def take (s : Scan) (sign : Sign) (width : Nat) : Scan :=
  { s.push sign s.place with cursor := s.cursor.right width }

/-- Skips blanks, comments and breaks. A tab is no indentation: where a key may stand it is not
skipped. -/
def toToken : Nat → Scan → Scan
  | 0, s => s
  | fuel + 1, s =>
    let c := s.cursor
    let c := if c.place.column == 0 && c.head? == some '\ufeff' then c.right 1 else c
    let c := c.skip fun a => a == ' ' || (a == '\t' && (s.inFlow || !s.keyAllowed))
    let c := if c.head? == some '#' then c.skip fun a => !isBreak a else c
    if c.head?.any isBreak then
      toToken fuel { s with cursor := c.lineBreak.2, keyAllowed := s.keyAllowed || !s.inFlow }
    else { s with cursor := c }

def takeEnd (s : Scan) : Except Fault Scan := do
  let place := if s.place.column == 0 then s.place else
    { s.place with line := s.place.line + 1, column := 0 }
  let s := { s with cursor := { s.cursor with place := place } }
  let s ← (s.unroll (-1)).dropCandidate
  .ok ({ s with keyAllowed := false }.push .streamEnd place)

/-- A mark of a document or a directive, which closes all blocks. -/
def takeTop (s : Scan) (sign : Sign) (width : Nat) : Except Fault Scan := do
  let s ← (s.unroll (-1)).dropCandidate
  .ok ({ s with keyAllowed := false }.take sign width)

def takeOpening (s : Scan) (sign : Sign) : Except Fault Scan := do
  let s ← s.saveCandidate
  .ok ({ s with candidates := none :: s.candidates, keyAllowed := true }.take sign 1)

def takeClosing (s : Scan) (sign : Sign) : Except Fault Scan := do
  let s ← s.dropCandidate
  let candidates := if s.inFlow then s.candidates.tail else s.candidates
  .ok ({ s with candidates := candidates, keyAllowed := false }.take sign 1)

def takeComma (s : Scan) : Except Fault Scan := do
  let s ← s.dropCandidate
  .ok ({ s with keyAllowed := true }.take .comma 1)

def takeDash (s : Scan) : Except Fault Scan := do
  let s ←
    if s.inFlow then .ok s
    else if !s.keyAllowed then s.fault "block sequence entries are not allowed in this context"
    else .ok (s.roll s.place.column s.tokens.size .blockSequence s.place)
  let s ← s.dropCandidate
  .ok ({ s with keyAllowed := true }.take .dash 1)

def takeKey (s : Scan) : Except Fault Scan := do
  let s ←
    if s.inFlow then .ok s
    else if !s.keyAllowed then s.fault "mapping keys are not allowed in this context"
    else .ok (s.roll s.place.column s.tokens.size .blockMapping s.place)
  let s ← s.dropCandidate
  .ok ({ s with keyAllowed := !s.inFlow }.take .key 1)

/-- The colon of a value. A live candidate before it is its key. -/
def takeValue (s : Scan) : Except Fault Scan := do
  match ← s.liveCandidate with
  | some c =>
    let s := (s.insert c.token .key c.place).roll c.place.column c.token .blockMapping c.place
    .ok ({ s.withCandidate none with keyAllowed := false }.take .value 1)
  | none =>
    let s := s.withCandidate none
    let s ←
      if s.inFlow then .ok s
      else if !s.keyAllowed then s.fault "mapping values are not allowed in this context"
      else .ok (s.roll s.place.column s.tokens.size .blockMapping s.place)
    .ok ({ s with keyAllowed := !s.inFlow }.take .value 1)

/-- Whether a character may stand in the name of an anchor. -/
def isNameChar (c : Char) : Bool := c.isAlphanum || c == '_' || c == '-'

def takeName (s : Scan) (sign : String → Sign) : Except Fault Scan := do
  let s ← s.saveCandidate
  let start := s.place
  let (name, c) := takeHere isNameChar (s.cursor.right 1).rest (s.cursor.right 1).place
  if name.isEmpty || !(endsWord c.rest || (c.head?.any fun a =>
    "?:,]\x7d%@`".toList.contains a)) then
    .error (.ofText start c.place "did not find expected alphabetic or numeric character")
  else .ok ({ s with keyAllowed := false, cursor := c }.push (sign (String.ofList name)) start)

def takeTag (s : Scan) : Except Fault Scan := do
  let s ← s.saveCandidate
  let start := s.place
  let (name, c) :=
    takeHere (fun a => !(isBlank a || isBreak a || (s.inFlow && ",[]\x7b\x7d".toList.contains a)))
      s.cursor.rest s.cursor.place
  if !(endsWord c.rest || (s.inFlow && c.head? == some ',')) then
    .error (.ofText start c.place "did not find expected whitespace or line break")
  else .ok ({ s with keyAllowed := false, cursor := c }.push (.tag (String.ofList name)) start)

/-- A block scalar. A key may stand on the line after it. -/
def takeBlock (s : Scan) (literal : Bool) : Except Fault Scan := do
  let s ← s.dropCandidate
  let (text, c) ← blockScalar literal s.indent s.cursor
  .ok ({ s with keyAllowed := true, cursor := c }.push (.scalar false (String.ofList text)) s.place)

def takeQuoted (s : Scan) (single : Bool) : Except Fault Scan := do
  let s ← s.saveCandidate
  let (text, c) ← quotedScalar single s.cursor
  .ok
    ({ s with keyAllowed := false, cursor := c }.push (.scalar false (String.ofList text)) s.place)

def takePlain (s : Scan) : Except Fault Scan := do
  let s ← s.saveCandidate
  let (text, broken, c) ← plainScalar s.inFlow (s.indent + 1) s.cursor
  .ok
    ({ s with keyAllowed := broken, cursor := c }.push (.scalar true (String.ofList text)) s.place)

/-- The characters that no plain scalar starts with. -/
def indicators : List Char := "-?:,[]\x7b\x7d#&*!|>'\"%@`".toList

def startsPlain (s : Scan) (a : Char) (rest : List Char) : Bool :=
  !(isBlank a || isBreak a || indicators.contains a) || (a == '-' && !(rest.head?.any isBlank)) ||
    (!s.inFlow && (a == '?' || a == ':') && !endsWord rest)

/-- Reads the next token and those that go with it. -/
def next (s : Scan) : Except Fault Scan :=
  let s := toToken (s.cursor.rest.length + 1) s
  let s := s.unroll s.place.column
  match s.cursor.rest with
  | [] => s.takeEnd
  | a :: rest =>
    let first := s.place.column == 0
    if first && a == '%' then
      s.takeTop .directive (takeHere (fun b => !isBreak b) s.cursor.rest s.place).1.length
    else if s.cursor.atMark '-' then s.takeTop .documentStart 3
    else if s.cursor.atMark '.' then s.takeTop .documentEnd 3
    else if a == '[' then s.takeOpening .flowSequence
    else if a == '\x7b' then s.takeOpening .flowMapping
    else if a == ']' then s.takeClosing .flowSequenceEnd
    else if a == '\x7d' then s.takeClosing .flowMappingEnd
    else if a == ',' then s.takeComma
    else if a == '-' && endsWord rest then s.takeDash
    else if a == '?' && (s.inFlow || endsWord rest) then s.takeKey
    else if a == ':' && (s.inFlow || endsWord rest) then s.takeValue
    else if a == '*' then s.takeName .alias
    else if a == '&' then s.takeName .anchor
    else if a == '!' then s.takeTag
    else if a == '|' && !s.inFlow then s.takeBlock true
    else if a == '>' && !s.inFlow then s.takeBlock false
    else if a == '\'' then s.takeQuoted true
    else if a == '"' then s.takeQuoted false
    else if s.startsPlain a rest then s.takePlain
    else s.fault "found character that cannot start any token"

/-- The number of tokens that can still be read before a fault: the reader is two tokens ahead, and
it reads on as long as a candidate is live. -/
def readable (s : Scan) : Nat :=
  ((s.candidates.filterMap id).filter s.isLive).foldl (fun n c => min n c.token) (s.tokens.size - 2)

/-- The tokens of a stream that was read to its end. A candidate in front of brackets that are still
open is a fault if it had to be a key. -/
def finished (s : Scan) : Tokens :=
  match (s.candidates.filterMap id).reverse.find? (·.required) with
  | some c => ⟨s.tokens, some (s.missingColon c, c.token)⟩
  | none => ⟨s.tokens, none⟩

/-- Reads tokens to the end of the stream. -/
def all : Nat → Scan → Tokens
  | 0, s => s.finished
  | fuel + 1, s =>
    match s.next with
    | .error f => ⟨s.tokens, some (f, s.readable)⟩
    | .ok s => if (s.tokens.back?.map (·.sign)) == some .streamEnd then s.finished else all fuel s

end Scan

/-- Whether a character may stand in a document. -/
def isAllowed (c : Char) : Bool :=
  c == '\t' || c == '\n' || c == '\r' || (' ' ≤ c && c ≤ '~') || c == '\u0085' ||
    ('\u00a0' ≤ c && c != '\ufffe' && c != '\uffff')

def Tokens.read (document : List Char) : Tokens :=
  if document.all isAllowed then Scan.all (document.length + 2) { cursor := ⟨document, {}⟩ }
  else ⟨#[], some (⟨"control characters are not allowed", 0⟩, 0)⟩

end Formulary.Yaml
