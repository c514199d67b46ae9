import Formulary.Lexical.Automaton
import Formulary.Lexical.Scanner

/-!
# Lexemes

A text is read as a sequence of lexemes: tokens, and characters that belong to none. Blanks between
them are left out. The longest token wins, and a fixed string wins a tie.
-/

namespace Formulary.Lexical

inductive Lexeme where
  | token (t : Token)
  | stray (code : Nat) (place : Place)
  deriving DecidableEq, Repr

structure Lexer where
  options : Options
  dictionary : Dictionary

def Lexer.ofOptions (o : Options) : Lexer :=
  ⟨o, (o.patterns.filter (!·.scanned)).foldl (fun d p => d.add p.pattern p.ignoreCase p.kind) []⟩

/-- The token at the front, with its length in characters. -/
def Lexer.tokenAt? (l : Lexer) (gs : List Text.Glyph) : Option (Kind × Nat) :=
  let scanned := longestScan (scanners l.options) gs
  match l.dictionary.longest? gs, scanned with
  | some (kind, n), some (other, m) => if n < m then some (other, m) else some (kind, n)
  | some fixed, none => some fixed
  | none, scanned => scanned

def Lexer.lexemes (l : Lexer) (p : Place) : List Text.Glyph → List Lexeme × Place
  | [] => ([], p)
  | g :: rest =>
    if isBlank g.code then l.lexemes (p.after g) rest
    else
      match l.tokenAt? (g :: rest) with
      | none =>
        let (more, last) := l.lexemes (p.after g) rest
        (.stray g.code p :: more, last)
      | some (kind, n) =>
        let taken := g :: rest.take (n - 1)
        let (more, last) := l.lexemes (p.afterAll taken) (rest.drop (n - 1))
        (.token ⟨kind, taken.flatMap (·.bytes), p⟩ :: more, last)
termination_by gs => gs.length
decreasing_by
  all_goals simp only [List.length_cons, List.length_drop]; omega

inductive ProblemKind where
  | unexpectedChar
  | unexpectedToken
  | unexpectedEnd
  deriving DecidableEq, Repr

structure Problem where
  kind : ProblemKind
  message : String
  place : Place
  expected : List String
  deriving DecidableEq, Repr

def Problem.text (p : Problem) : String :=
  let wanted := if p.expected.isEmpty then "" else ", expected " ++ ", ".intercalate p.expected
  s!"line {p.place.line}, column {p.place.column}: {p.message}{wanted}"

/-- The problem of a character that starts no token. -/
def Problem.stray (code : Nat) (place : Place) : Problem :=
  ⟨.unexpectedChar, s!"unexpected character {Text.quoteCode code}", place, []⟩

def Lexeme.token? : Lexeme → Option Token
  | .token t => some t
  | .stray .. => none

def Lexeme.problem? : Lexeme → Option Problem
  | .token _ => none
  | .stray code place => some (.stray code place)

end Formulary.Lexical
