/-!
# Texts and their characters

A text is a list of bytes, as a rule UTF-8. Reading it character by character never fails: a byte
that is no part of a well-formed character counts as one character of its own, with the replacement
code point. The bytes of the characters of a text are the text again (`flatMap_bytes_glyphs`).
-/

namespace Formulary

abbrev Text := List UInt8

namespace Text

/-- The code point of a byte that belongs to no well-formed character. -/
def replacement : Nat := 0xFFFD

structure Glyph where
  code : Nat
  bytes : Text
  deriving DecidableEq, Repr, Inhabited

def isTail (b : UInt8) : Bool := 0x80 ≤ b && b ≤ 0xBF

/-- The six low bits of a continuing byte. -/
def tailBits (b : UInt8) : Nat := b.toNat % 64

/-- The code point of the first character of a text and the number of bytes it takes. -/
def decodeFirst : Text → Nat × Nat
  | [] => (replacement, 0)
  | a :: rest =>
    if a < 0x80 then (a.toNat, 1)
    else if 0xC2 ≤ a && a ≤ 0xDF then
      match rest with
      | b :: _ => if isTail b then (a.toNat % 32 * 64 + tailBits b, 2) else (replacement, 1)
      | [] => (replacement, 1)
    else if 0xE0 ≤ a && a ≤ 0xEF then
      match rest with
      | b :: c :: _ =>
        if isTail b && isTail c && (a != 0xE0 || 0xA0 ≤ b) && (a != 0xED || b ≤ 0x9F) then
          (a.toNat % 16 * 4096 + tailBits b * 64 + tailBits c, 3)
        else (replacement, 1)
      | _ => (replacement, 1)
    else if 0xF0 ≤ a && a ≤ 0xF4 then
      match rest with
      | b :: c :: d :: _ =>
        if isTail b && isTail c && isTail d && (a != 0xF0 || 0x90 ≤ b) &&
          (a != 0xF4 || b ≤ 0x8F) then
          (a.toNat % 8 * 262144 + tailBits b * 4096 + tailBits c * 64 + tailBits d, 4)
        else (replacement, 1)
      | _ => (replacement, 1)
    else (replacement, 1)

/-- The characters of a text after `skip` bytes that belong to the character before. -/
def glyphsFrom : Nat → Text → List Glyph
  | _, [] => []
  | skip + 1, _ :: rest => glyphsFrom skip rest
  | 0, b :: rest =>
    let (code, width) := decodeFirst (b :: rest)
    ⟨code, (b :: rest).take width⟩ :: glyphsFrom (width - 1) rest

def glyphs (t : Text) : List Glyph := glyphsFrom 0 t

def codes (t : Text) : List Nat := t.glyphs.map (·.code)

def characterCount (t : Text) : Nat := t.glyphs.length

/-- A character that a text can spell: a code point in range that is no half of a surrogate pair. -/
def isScalar (c : Nat) : Bool := c < 0xD800 || (0xE000 ≤ c && c ≤ 0x10FFFF)

/-- The bytes of a code point; one that no text can spell is written as the replacement. -/
def encode (c : Nat) : Text :=
  if c < 0x80 then [c.toUInt8]
  else if c < 0x800 then [(0xC0 + c / 64).toUInt8, (0x80 + c % 64).toUInt8]
  else if !isScalar c then [0xEF, 0xBF, 0xBD]
  else if c < 0x10000 then
    [(0xE0 + c / 4096).toUInt8, (0x80 + c / 64 % 64).toUInt8, (0x80 + c % 64).toUInt8]
  else
    [(0xF0 + c / 262144).toUInt8, (0x80 + c / 4096 % 64).toUInt8, (0x80 + c / 64 % 64).toUInt8,
      (0x80 + c % 64).toUInt8]

def ofCodes (cs : List Nat) : Text := cs.flatMap encode

/-- The bytes of a character number, which may be negative. -/
def encodeInt (n : Int) : Text := if n < 0 then encode replacement else encode n.toNat

def ofString (s : String) : Text := s.toUTF8.data.toList

/-- The string a text spells, with the replacement character for each stray byte. -/
def toString (t : Text) : String := String.ofList (t.glyphs.map fun g => Char.ofNat g.code)

/-- A character that stands for a stray byte. -/
def Glyph.isStray (g : Glyph) : Bool := g.code == replacement && g.bytes.length == 1

/-- Whether every byte of a text belongs to a well-formed character. -/
def isUtf8 (t : Text) : Bool := t.glyphs.all fun g => !g.isStray

/-- The text with its white space at the front removed. -/
def trimStartWith (p : Nat → Bool) (t : Text) : Text :=
  (t.glyphs.dropWhile fun g => p g.code).flatMap (·.bytes)

/-- The text with its characters of a class removed at the end. -/
def trimEndWith (p : Nat → Bool) (t : Text) : Text :=
  ((t.glyphs.reverse.dropWhile fun g => p g.code).reverse).flatMap (·.bytes)

def startsWith (t sub : Text) : Bool := sub.isPrefixOf t

/-- The offset of the first occurrence of a text in another. -/
def find? (t sub : Text) : Option Nat :=
  match t with
  | [] => if sub.isEmpty then some 0 else none
  | b :: rest => if startsWith (b :: rest) sub then some 0 else (find? rest sub).map (· + 1)

def findLast? (t sub : Text) : Option Nat :=
  match t with
  | [] => if sub.isEmpty then some 0 else none
  | b :: rest =>
    match findLast? rest sub with
    | some n => some (n + 1)
    | none => if startsWith (b :: rest) sub then some 0 else none

/-- The bytes of a text as characters below 256, for scanning a text byte by byte. -/
def byteChars (t : Text) : List Char := t.map fun b => Char.ofNat b.toNat

/-- The text of characters that stand for bytes. -/
def ofByteChars (cs : List Char) : Text := cs.map fun c => c.toNat.toUInt8

theorem decodeFirst_width_pos (b : UInt8) (t : Text) : 0 < (decodeFirst (b :: t)).2 := by
  unfold decodeFirst
  repeat' split
  all_goals simp_all

theorem decodeFirst_width_le (t : Text) : (decodeFirst t).2 ≤ t.length := by
  unfold decodeFirst
  repeat' split
  all_goals simp

theorem flatMap_bytes_glyphsFrom (skip : Nat) (t : Text) :
    (glyphsFrom skip t).flatMap (·.bytes) = t.drop skip := by
  induction t generalizing skip with
  | nil => cases skip <;> simp [glyphsFrom]
  | cons b rest ih =>
    cases skip with
    | succ n => simp [glyphsFrom, ih]
    | zero =>
      have hpos := decodeFirst_width_pos b rest
      simp only [glyphsFrom, List.flatMap_cons, ih, List.drop_zero]
      generalize (decodeFirst (b :: rest)).2 = w at hpos
      obtain ⟨k, rfl⟩ : ∃ k, w = k + 1 := ⟨w - 1, by omega⟩
      simp

/-- Reading a text character by character loses no byte. -/
theorem flatMap_bytes_glyphs (t : Text) : t.glyphs.flatMap (·.bytes) = t := by
  simp [glyphs, flatMap_bytes_glyphsFrom]

end Text

end Formulary
