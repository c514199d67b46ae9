/-!
# Tokens of data documents

Places in a document, what is wrong with one, and the tokens it is read into. Besides the signs that
stand in the text there are tokens for what only the indentation tells: where a block collection
starts and ends.
-/

namespace Formulary.Yaml

structure Place where
  index : Nat := 0
  line : Nat := 0
  column : Nat := 0
  deriving DecidableEq, Repr, Inhabited

/-- The place after characters of the same line. -/
def Place.right (p : Place) (n : Nat) : Place :=
  { p with index := p.index + n, column := p.column + n }

def Place.down (p : Place) (n : Nat) : Place := ⟨p.index + n, p.line + 1, 0⟩

/-- What is wrong with a document, and the line that is told with it; no line is told for zero. -/
structure Fault where
  problem : String
  line : Nat := 0
  deriving DecidableEq, Repr, Inhabited

namespace Fault

/-- A fault of the text: the line of its context counts, or that of the place where it shows, unless
they are the first. -/
def ofText (context place : Place) (problem : String) : Fault :=
  let line := if context.line != 0 then context.line else place.line
  ⟨problem, if line == 0 then 0 else line + 1⟩

/-- A fault of the structure, told with the number of lines above it. -/
def ofStructure (context place : Place) (problem : String) : Fault :=
  ⟨problem, if context.line != 0 then context.line else place.line⟩

def message (f : Fault) : String :=
  if f.line == 0 then s!"yaml: {f.problem}" else s!"yaml: line {f.line}: {f.problem}"

end Fault

inductive Sign where
  | streamStart
  | streamEnd
  | documentStart
  | documentEnd
  | directive
  | blockSequence
  | blockMapping
  | blockEnd
  | flowSequence
  | flowSequenceEnd
  | flowMapping
  | flowMappingEnd
  | dash
  | comma
  | key
  | value
  | alias (name : String)
  | anchor (name : String)
  | tag (name : String)
  | scalar (plain : Bool) (text : String)
  deriving DecidableEq, Repr, Inhabited

structure Token where
  sign : Sign
  place : Place := {}
  deriving DecidableEq, Repr, Inhabited

structure Tokens where
  list : Array Token
  fault : Option (Fault × Nat) := none

/-- The token of a number, or the fault that stands in its way. After the last token the stream has
ended. -/
def Tokens.get (ts : Tokens) (n : Nat) : Except Fault Token :=
  match ts.fault with
  | some (fault, bound) =>
    if bound ≤ n then .error fault else .ok ((ts.list[n]?).getD ⟨.streamEnd, {}⟩)
  | none => .ok ((ts.list[n]?).getD ⟨.streamEnd, {}⟩)

end Formulary.Yaml
