import Formulary.Yaml.Token

/-!
# Reading characters

A cursor is the rest of a document and its place. Blanks and line breaks between words fold: one
break is a space, more breaks are one break less.
-/

namespace Formulary.Yaml

structure Cursor where
  rest : List Char
  place : Place := {}

def isBlank (c : Char) : Bool := c == ' ' || c == '\t'

def isBreak (c : Char) : Bool :=
  c == '\n' || c == '\r' || c == '\u0085' || c == '\u2028' || c == '\u2029'

/-- The break that stands in a scalar for a break of the document. -/
def breakText (c : Char) : Char := if c == '\r' || c == '\u0085' then '\n' else c

def endsWord : List Char → Bool
  | [] => true
  | c :: _ => isBlank c || isBreak c

namespace Cursor

def head? (c : Cursor) : Option Char := c.rest.head?

/-- The cursor after characters of the same line. -/
def right (c : Cursor) (n : Nat) : Cursor := ⟨c.rest.drop n, c.place.right n⟩

/-- The line break at the cursor, as it is read, and the cursor after it; nothing where there is
none. -/
def lineBreak (c : Cursor) : List Char × Cursor :=
  match c.rest with
  | '\r' :: '\n' :: cs => (['\n'], ⟨cs, c.place.down 2⟩)
  | b :: cs => if isBreak b then ([breakText b], ⟨cs, c.place.down 1⟩) else ([], c)
  | [] => ([], c)

/-- Whether three equal marks and the end of a word stand at the start of a line here. -/
def atMark (c : Cursor) (mark : Char) : Bool :=
  c.place.column == 0 && c.rest.take 3 == [mark, mark, mark] && endsWord (c.rest.drop 3)

def atDocumentMark (c : Cursor) : Bool := c.atMark '-' || c.atMark '.'

end Cursor

/-- The characters at a place that satisfy a test, and the cursor after them. The test refuses line
breaks. -/
def takeHere (p : Char → Bool) : List Char → Place → List Char × Cursor
  | [], place => ([], ⟨[], place⟩)
  | c :: cs, place =>
    if p c then
      let (taken, rest) := takeHere p cs (place.right 1)
      (c :: taken, rest)
    else ([], ⟨c :: cs, place⟩)

/-- The cursor after the characters that satisfy a test. -/
def Cursor.skip (c : Cursor) (p : Char → Bool) : Cursor := (takeHere p c.rest c.place).2

/-- What stands between two words: blanks of one line, or a first line break and more of them. A
first break that is escaped is nothing. -/
inductive Gap where
  | blanks (cs : List Char)
  | breaks (first more : List Char)

namespace Gap

/-- Whether the gap holds a line break. -/
def isBroken : Gap → Bool
  | .blanks _ => false
  | .breaks .. => true

def addBlank (c : Char) : Gap → Gap
  | .blanks cs => .blanks (cs ++ [c])
  | g => g

def addBreak (c : Char) : Gap → Gap
  | .blanks _ => .breaks [c] []
  | .breaks first more => .breaks first (more ++ [c])

def text : Gap → List Char
  | .blanks cs => cs
  | .breaks ['\n'] [] => [' ']
  | .breaks ['\n'] more => more
  | .breaks first more => first ++ more

end Gap

/-- Reads a gap. After a break no tab may stand left of a column. -/
def readGap (least : Int) : Gap → List Char → Place → Option (Gap × Cursor)
  | g, [], place => some (g, ⟨[], place⟩)
  | g, '\r' :: '\n' :: cs, place => readGap least (g.addBreak '\n') cs (place.down 2)
  | g, c :: cs, place =>
    if isBlank c then
      if g.isBroken && c == '\t' && place.column < least then none
      else readGap least (g.addBlank c) cs (place.right 1)
    else if isBreak c then readGap least (g.addBreak (breakText c)) cs (place.down 1)
    else some (g, ⟨c :: cs, place⟩)

end Formulary.Yaml
