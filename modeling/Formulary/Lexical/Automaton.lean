import Formulary.Lexical.Token
import Formulary.Text.Case

/-!
# Dictionaries of fixed strings and their search trees

A dictionary maps fixed strings to token kinds and finds the longest of them at the front of a text.
An entry that ignores case stands for every string that equals it up to simple case folding; the
entry added last decides what a string means, and the kind `eof` takes a string out again.

The strings of a dictionary make a tree whose states branch on characters. A state has a table for
ASCII and a sorted list for all other characters. A string that ignores case is added along all its
spellings at once, so that the states reached so far are many, and the longest string at the front
of a text is found in one walk from the root.
-/

namespace Formulary.Lexical

structure Entry where
  codes : List Nat
  ignoreCase : Bool
  kind : Kind
  deriving DecidableEq, Repr

def Entry.covers (e : Entry) (codes : List Nat) : Bool :=
  if e.ignoreCase then e.codes.map Text.foldCode == codes.map Text.foldCode else e.codes == codes

/-- The entries, the one added last first. -/
abbrev Dictionary := List Entry

namespace Dictionary

def add (d : Dictionary) (text : Text) (ignoreCase : Bool) (kind : Kind) : Dictionary :=
  ⟨text.codes, ignoreCase, kind⟩ :: d

def kindOf? (d : Dictionary) (codes : List Nat) : Option Kind :=
  ((d.find? (·.covers codes)).map (·.kind)).filter (· != .eof)

/-- The longest non-empty string of at most `n` characters at the front, with its length. -/
def longestUpTo (d : Dictionary) (codes : List Nat) : Nat → Option (Kind × Nat)
  | 0 => none
  | n + 1 =>
    match d.kindOf? (codes.take (n + 1)) with
    | some kind => some (kind, n + 1)
    | none => d.longestUpTo codes n

def width (d : Dictionary) : Nat := d.foldl (fun n e => max n e.codes.length) 0

/-- The longest string at the front, with its length in characters. -/
def longest? (d : Dictionary) (gs : List Text.Glyph) : Option (Kind × Nat) :=
  let codes := (gs.take d.width).map (·.code)
  d.longestUpTo codes codes.length

end Dictionary

/-- The smallest number from `i` to `j` at which a test that stays true succeeds, or `j`, by
halving. -/
def searchBetween (test : Nat → Bool) (i j : Nat) : Nat :=
  if i < j then
    let middle := (i + j) / 2
    if test middle then searchBetween test i middle else searchBetween test (middle + 1) j
  else i
termination_by j - i
decreasing_by all_goals omega

/-- A state: the kind of the string that ends here, `eof` if none does, and the states that
characters lead to. -/
structure TreeState where
  kind : Kind
  ascii : Vector (Option Nat) 0x80
  other : List (Nat × Nat)
  deriving DecidableEq, Repr

namespace TreeState

/-- A state where no string ends and none goes on. -/
def fresh : TreeState := ⟨.eof, Vector.replicate 0x80 none, []⟩

/-- Where a character stands in the sorted list, or where it belongs. -/
def position (s : TreeState) (c : Nat) : Nat :=
  searchBetween (fun i => s.other[i]?.any (c ≤ ·.1)) 0 s.other.length

def step (s : TreeState) (c : Nat) : Option Nat :=
  if h : c < 0x80 then s.ascii[c]
  else (s.other[s.position c]?.filter (·.1 == c)).map (·.2)

/-- The state with a character that leads to another state. -/
def link (s : TreeState) (c next : Nat) : TreeState :=
  if h : c < 0x80 then { s with ascii := s.ascii.set c (some next) }
  else { s with other := s.other.take (s.position c) ++ (c, next) :: s.other.drop (s.position c) }

end TreeState

structure Automaton where
  states : List TreeState
  deriving DecidableEq, Repr

def appendUnique (l : List Nat) (i : Nat) : List Nat := if l.contains i then l else l ++ [i]

structure Addition where
  text : Text
  ignoreCase : Bool
  kind : Kind
  deriving DecidableEq, Repr

def Addition.entry (p : Addition) : Entry := ⟨p.text.codes, p.ignoreCase, p.kind⟩

namespace Automaton

def empty : Automaton := ⟨[.fresh]⟩

/-- The state that a character leads to from another. -/
def step (a : Automaton) (i c : Nat) : Option Nat := a.states[i]?.bind (·.step c)

/-- The kind of the string that ends in a state. -/
def kind (a : Automaton) (i : Nat) : Kind := (a.states[i]?.map (·.kind)).getD .eof

/-- The tree with a new state that a character leads to from another. -/
def grow (a : Automaton) (i c : Nat) : Automaton :=
  ⟨a.states.modify i (·.link c a.states.length) ++ [TreeState.fresh]⟩

/-- The state that a character leads to from another, which is made where there is none. -/
def ensure (a : Automaton) (i c : Nat) : Automaton × Nat :=
  match a.step i c with
  | some j => (a, j)
  | none => (a.grow i c, a.states.length)

/-- The states that some characters lead to from a state, added to others. -/
def spread (i : Nat) : List Nat → Automaton × List Nat → Automaton × List Nat
  | [], reached => reached
  | c :: cs, (a, next) =>
    let (a, j) := a.ensure i c
    spread i cs (a, appendUnique next j)

/-- The states that some characters lead to from several states. -/
def advance (cs : List Nat) : List Nat → Automaton × List Nat → Automaton × List Nat
  | [], reached => reached
  | i :: is, reached => advance cs is (spread i cs reached)

/-- The states reached from several along a string. -/
def reach (ignoreCase : Bool) : List Nat → Automaton × List Nat → Automaton × List Nat
  | [], reached => reached
  | c :: codes, (a, is) =>
    reach ignoreCase codes (advance (if ignoreCase then Text.caseVariants c else [c]) is (a, []))

/-- The tree with a kind for the strings that end in a state. -/
def mark (kind : Kind) (a : Automaton) (i : Nat) : Automaton :=
  ⟨a.states.modify i ({ · with kind })⟩

def insert (a : Automaton) (e : Entry) : Automaton :=
  let (a, ends) := reach e.ignoreCase e.codes (a, [0])
  ends.foldl (mark e.kind) a

def add (a : Automaton) (p : Addition) : Automaton := a.insert p.entry

/-- The tree after some strings are added one after the other. -/
def ofAdditions (ps : List Addition) : Automaton := ps.foldl add empty

/-- The last kind met on a walk along a text, with the length in bytes where it is met. The first
`skip` bytes belong to the character before. -/
def matchFrom (a : Automaton) : Nat → Nat → Nat → Kind × Nat → Text → Kind × Nat
  | _, _, _, best, [] => best
  | skip + 1, i, length, best, _ :: rest => a.matchFrom skip i length best rest
  | 0, i, length, best, b :: rest =>
    let (code, width) := Text.decodeFirst (b :: rest)
    match a.step i code with
    | none => best
    | some j =>
      let length := length + width
      a.matchFrom (width - 1) j length (if a.kind j != .eof then (a.kind j, length) else best) rest

/-- The longest string in a text from a byte on, with its length in bytes; `eof` if there is
none. -/
def matchAt (a : Automaton) (text : Text) (offset : Nat) : Kind × Nat :=
  a.matchFrom 0 0 0 (.eof, 0) (text.drop offset)

end Automaton

/-- The search tree of a dictionary, whose entries are added in their order. -/
def Dictionary.automaton (d : Dictionary) : Automaton := d.foldr (fun e a => a.insert e) .empty

/-- The longest string at the front of a text, with its length in bytes. -/
def Dictionary.matchText (d : Dictionary) (t : Text) : Kind × Nat := d.automaton.matchAt t 0

end Formulary.Lexical
