import Formulary.Grammar.Expression
import Formulary.Lexical.Cursor
import Formulary.Failure

/-!
# Parse trees

Parsing follows the grammar with one token of lookahead. A token that does not fit is reported and
passed over, and after a report three tokens go by before the next one. Each rule within a rule
costs one level of depth; when none is left the text is too complex.
-/

namespace Formulary.Grammar

open Lexical (Kind Lexeme Lexer Place Problem Token)

inductive Tree where
  | leaf (token : Token)
  | node (rule : Nat) (name : String) (place : Place) (children : List Tree)
  deriving Inhabited

namespace Tree

def place : Tree → Place
  | .leaf t => t.place
  | .node _ _ p _ => p

mutual

/-- Writes a tree after a text, with one line for each node, indented by its depth. -/
def writeAt (depth : Nat) (written : String) : Tree → String
  | .leaf t =>
    let indented := written.pushn ' ' (2 * depth)
    indented ++ s!"{t.kind.name} {Text.quote t.image} ({t.place.line}:{t.place.column})\n"
  | .node rule name _ children =>
    let indented := written.pushn ' ' (2 * depth)
    writeAllAt (depth + 1) (indented ++ s!"{name}({rule})\n") children

/-- Writes several trees after a text. -/
def writeAllAt (depth : Nat) (written : String) : List Tree → String
  | [] => written
  | t :: rest => writeAllAt depth (writeAt depth written t) rest

end

def text (t : Tree) : String := t.writeAt 0 ""

mutual

/-- The tokens of a tree from left to right. -/
def leaves : Tree → List Token
  | .leaf t => [t]
  | .node _ _ _ children => leavesOf children

def leavesOf : List Tree → List Token
  | [] => []
  | t :: rest => t.leaves ++ leavesOf rest

end

end Tree

/-- The state of a parse: the token in view, what follows it, the problems so far (last first), and
how many tokens still have to pass before another problem is reported. No more tokens than `bound`
can be passed. -/
structure State where
  next : Token
  rest : List Lexeme
  last : Token
  problems : List Problem
  quiet : Nat
  bound : Nat
  deriving Inhabited

namespace State

/-- Brings the next token into view and notes the characters passed on the way. -/
def pull (last : Token) : List Lexeme → List Problem → Token × List Lexeme × List Problem
  | [], problems => (last, [], problems)
  | .token t :: rest, problems => (t, rest, problems)
  | .stray code place :: rest, problems => pull last rest (.stray code place :: problems)

def start (lexemes : List Lexeme) (last : Token) : State :=
  let (next, rest, problems) := pull last lexemes []
  ⟨next, rest, last, problems, 0, lexemes.length⟩

def advance (s : State) : State :=
  let (next, rest, problems) := pull s.last s.rest s.problems
  { s with next := next, rest := rest, problems := problems, quiet := s.quiet - 1 }

/-- Passes the token in view unless it is the end. -/
def skip (s : State) : State := if s.next.kind == .eof then s else s.advance

end State

def expectedName (separator : Nat) (k : Kind) : String :=
  if k == .separator then Text.quote (Text.encode separator)
  else if k.isClass then k.name
  else Text.quoteString k.name

/-- Reports the token in view, unless a report is recent. -/
def State.report (separator : Nat) (s : State) (expected : List Kind) : State :=
  if 0 < s.quiet then s
  else
    let names := expected.map (expectedName separator)
    let problem : Problem :=
      if s.next.kind == .eof then ⟨.unexpectedEnd, "unexpected end of expression",
        s.next.place, names⟩
      else ⟨.unexpectedToken, s!"unexpected token {Text.quote s.next.image}", s.next.place, names⟩
    { s with problems := problem :: s.problems, quiet := 3 }

/-- What a rule parses to: a tree or nothing after a report, and the state after it; or the place
where the depth ran out. -/
abbrev Outcome (α : Type) := Except Place (α × State)

/-- The alternative for a token: the one that starts with it, or else the last that can match
nothing. -/
def chooseAlternative (r : ReadyRule) (k : Kind) : Option ReadyAlternative :=
  match r.alternatives.find? (·.first.contains k) with
  | some a => some a
  | none => (r.alternatives.filter (·.nullable)).getLast?

/-- Whether an element may repeat once more after `n` times. -/
def Element.allows (e : Element) (n : Nat) : Bool :=
  match e.most with
  | some m => n < m
  | none => true

/-- Parses the repetitions of an element after the first `n`, with a parser for rules, and puts
their trees in front of those before (last first). Every repetition but the last passes a token, so
the number of tokens bounds theirs. -/
def parseElement (g : Ready) (separator : Nat)
    (parseRule : ReadyRule → State → Outcome (Option Tree))
    (e : ReadyElement) : Nat → Nat → List Tree → State → Outcome (List Tree)
  | 0, _, children, s => .ok (children, s)
  | fuel + 1, n, children, s =>
    if !e.element.allows n || (e.element.least ≤ n && !e.first.contains s.next.kind) then
      .ok (children, s)
    else
      match e.element.target with
      | .token k =>
        if s.next.kind == k then
          parseElement g separator parseRule e fuel (n + 1) (.leaf s.next :: children) s.advance
        else .ok (children, (s.report separator e.first).skip)
      | .rule id =>
        match g.rule? id with
        | none => .ok (children, s)
        | some rule =>
          match parseRule rule s with
          | .error place => .error place
          | .ok (none, s') => .ok (children, s')
          | .ok (some tree, s') =>
            let added :=
              match tree with
              | .node _ _ _ inner => if rule.hidden then inner else [tree]
              | .leaf _ => [tree]
            let children := added.reverse ++ children
            if s'.next.place.offset == s.next.place.offset then .ok (children, s')
            else parseElement g separator parseRule e fuel (n + 1) children s'

/-- Parses the elements of an alternative one after the other, with their trees last first. -/
def parseElements (g : Ready) (separator : Nat)
    (parseRule : ReadyRule → State → Outcome (Option Tree)) :
    List ReadyElement → List Tree → State → Outcome (List Tree)
  | [], children, s => .ok (children, s)
  | e :: rest, children, s =>
    match parseElement g separator parseRule e (s.bound + 2) 0 children s with
    | .error place => .error place
    | .ok (children, s) => parseElements g separator parseRule rest children s

/-- Parses a rule with so many levels left. -/
def parseRule (g : Ready) (separator : Nat) : Nat → ReadyRule → State → Outcome (Option Tree)
  | 0, _, s => .error s.next.place
  | depth + 1, r, s =>
    match chooseAlternative r s.next.kind with
    | none => .ok (none, (s.report separator r.first).skip)
    | some a =>
      match parseElements g separator (parseRule g separator depth) a.elements [] s with
      | .error place => .error place
      | .ok (children, s') => .ok (some (.node r.id r.name s.next.place children.reverse), s')

inductive ParseFault where
  | tooDeep (limit : Nat) (place : Place)
  | problems (log : List Problem)
  deriving Repr

def ParseFault.error : ParseFault → CompileError
  | .tooDeep limit place =>
    { reason := .tooComplex, detail := s!"expression nesting exceeds {limit} levels",
      position := some place.offset }
  | .problems log =>
    { reason := .syntaxError, detail := "\n".intercalate (log.map Problem.text),
      position := log.head?.map (·.place.offset) }

def State.drain : Nat → State → State
  | 0, s => s
  | fuel + 1, s => if s.next.kind == .eof then s else drain fuel s.advance

/-- Parses what was read of a text by a grammar. -/
def parseLexemes (g : Ready) (o : Lexical.Options) (lexemes : List Lexeme) (last : Token) :
    Except ParseFault Tree :=
  let s := State.start lexemes last
  let separator := o.separator
  match g.rule? g.start with
  | none => .error (.problems [])
  | some rule =>
    match parseRule g separator o.depth rule s with
    | .error place => .error (.tooDeep o.depth place)
    | .ok (tree, s) =>
      let s := if s.next.kind == .eof then s else (s.report separator [.eof]).drain (s.bound + 1)
      match s.problems, tree with
      | [], some t => .ok t
      | problems, _ => .error (.problems problems.reverse)

def parseText (g : Ready) (l : Lexer) (text : Text) : Except ParseFault Tree :=
  parseLexemes g l.options (l.read text).1 (l.read text).2

def parse (l : Lexer) (text : Text) : Except ParseFault Tree := parseText expressionReady l text

end Formulary.Grammar
