import Formulary.Text.Utf8
import Formulary.Text.Classes
import Formulary.Text.CaseMaps

/-!
# Letter case

Upper, lower and title case and case folding of texts. Full mappings may turn one character into
several; a capital sigma that ends a word becomes the final small sigma.
-/

namespace Formulary.Text

/-- The image of a code point under a table of strided rows. -/
def mapRow (rows : List (Nat × Nat × Nat × Nat)) (c : Nat) : Nat :=
  match rows.find? fun r => r.1 ≤ c && c ≤ r.2.1 && (c - r.1) % r.2.2.1 == 0 with
  | some r => r.2.2.2 + (c - r.1)
  | none => c

/-- The image of a code point under a table of special rows, or its one-to-one image. -/
def mapFull (specials : List (Nat × List Nat)) (one : Nat → Nat) (c : Nat) : List Nat :=
  match specials.find? fun r => r.1 == c with
  | some r => r.2
  | none => [one c]

def upperCode (c : Nat) : Nat := mapRow upperRows c

def lowerCode (c : Nat) : Nat := mapRow lowerRows c

def titleCode (c : Nat) : Nat :=
  if inRanges titleKept c then c
  else
    let d := mapRow titleRows c
    if d == c then upperCode c else d

/-- The representative of the code points that differ from one only in case. -/
def foldCode (c : Nat) : Nat := mapRow foldRows c

/-- The code point that a row maps to another one, if it is in reach of the row. -/
def unmapRow (target : Nat) (row : Nat × Nat × Nat × Nat) : Option Nat :=
  if row.2.2.2 ≤ target && target - row.2.2.2 ≤ row.2.1 - row.1 then
    some (row.1 + (target - row.2.2.2)) else none

/-- A code point and those that differ from it only in case: their representative, and those that
rows map to it. -/
def caseVariants (c : Nat) : List Nat :=
  let representative := foldCode c
  c :: (representative :: foldRows.filterMap (unmapRow representative)).filter fun d =>
    d != c && foldCode d == representative

/-- The lower case of one code point, which for the dotted capital i is two. -/
def lowerFull (c : Nat) : List Nat := if c == 0x130 then [0x69, 0x307] else [lowerCode c]

def upperFull (c : Nat) : List Nat := mapFull upperSpecials upperCode c

def titleFull (c : Nat) : List Nat := mapFull titleSpecials titleCode c

def foldFull (c : Nat) : List Nat := mapFull foldSpecials foldCode c

/-- A text with each character replaced by several; stray bytes stay. -/
def mapGlyphs (f : Nat → List Nat) (t : Text) : Text :=
  t.glyphs.flatMap fun g => if g.isStray then g.bytes else ofCodes (f g.code)

/-- The case folding of a text: texts that differ only in case have the same folding. -/
def fold (t : Text) : Text := mapGlyphs foldFull t

def upper (t : Text) : Text := mapGlyphs upperFull t

/-- The text with each character replaced by its one-to-one lower case. -/
def simpleLower (t : Text) : Text := ofCodes (t.codes.map lowerCode)

def isCased (c : Nat) : Bool := inStrides casedStrides c

def isCaseIgnorable (c : Nat) : Bool := inRanges caseIgnorableRanges c

/-- Punctuation that may stand inside a word. -/
def isMidWord (c : Nat) : Bool :=
  [0x27, 0x2E, 0x3A, 0xB7, 0x387, 0x55F, 0x5F4, 0x2018, 0x2019, 0x2024, 0x2027, 0xFE13, 0xFE52,
    0xFE55, 0xFF07, 0xFF0E, 0xFF1A].contains c

def isWordBreak (c : Nat) : Bool := !inRanges wordRanges c

/-- Whether a cased character follows, with only ignorable ones before it. -/
def casedFollows (rest : List Glyph) : Bool :=
  match rest.dropWhile fun g => isCaseIgnorable g.code && !isCased g.code with
  | g :: _ => isCased g.code
  | [] => false

/-- The lower case of a character inside a word. -/
def lowerInWord (g : Glyph) (rest : List Glyph) : Text :=
  if g.isStray then g.bytes
  else if g.code == 0x3A3 then encode (if casedFollows rest then 0x3C3 else 0x3C2)
  else ofCodes (lowerFull g.code)

/-- The lower case of characters, knowing whether a word has begun. -/
def lowerGlyphs : Bool → List Glyph → Text
  | _, [] => []
  | inWord, g :: rest =>
    if inWord then
      if !isCased g.code && !isCaseIgnorable g.code then g.bytes ++ lowerGlyphs false rest
      else lowerInWord g rest ++ lowerGlyphs true rest
    else if isCased g.code then ofCodes (lowerFull g.code) ++ lowerGlyphs true rest
    else g.bytes ++ lowerGlyphs false rest

def lower (t : Text) : Text := lowerGlyphs false t.glyphs

/-- The title case of characters, knowing whether a word has begun and whether the character before
was punctuation inside a word. -/
def titleGlyphs : Bool → Bool → List Glyph → Text
  | _, _, [] => []
  | inWord, wasMid, g :: rest =>
    let mid := isMidWord g.code
    let inWord := inWord && !(wasMid && mid)
    if isCased g.code then
      (if inWord then lowerInWord g rest else ofCodes (titleFull g.code)) ++
        titleGlyphs true mid rest
    else g.bytes ++ titleGlyphs (inWord && !isWordBreak g.code) mid rest

/-- The title case of a text: each word starts with a capital and goes on in small letters. -/
def title (t : Text) : Text := titleGlyphs false false t.glyphs

end Formulary.Text
