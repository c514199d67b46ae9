import Formulary.Lexical.Escape
import Formulary.Proofs.Lexical.Languages

/-!
# Bodies of quoted tokens

What stands between the quotes of a token is a sequence of pieces: characters that stand for
themselves, short escapes, and escapes of four hexadecimal digits (`string_pieces`, `char_piece`).
Each piece spells its own text, but for an escape of digits that is the first half of a surrogate
pair: it spells one character together with the piece behind it, if that is the second half and is
written with the small letter. So no body of pieces fails to decode (`unescape_body`).
-/

namespace Formulary

open Text (Glyph)
open Computability

namespace Text

theorem Glyph.Spelled.exists_byte {g : Glyph} (h : g.Spelled) (hlt : g.code < 0x80) : ∃ b,
    byteGlyph b = g := by
  cases h with
  | ascii _ => exact ⟨_, rfl⟩
  | encoded hc => exact absurd hlt (Nat.not_lt.2 hc)
  | stray _ => exact absurd hlt (by decide : ¬replacement < 0x80)

theorem Glyph.Spelled.bytes_ne_nil {g : Glyph} (h : g.Spelled) : g.bytes ≠ [] := by
  cases h with
  | ascii _ => exact List.cons_ne_nil _ _
  | encoded _ => exact encode_ne_nil _
  | stray _ => exact List.cons_ne_nil _ _

end Text

open Text (byteGlyph)

namespace Lexical

inductive Piece where
  | plain (g : Glyph)
  | short (mark : UInt8)
  | code (letter : UInt8) (digits : Text)
  deriving DecidableEq, Repr

def codeOf (digits : Text) : Nat := digits.foldl (fun n d => n * 16 + (hexValue? d).getD 0) 0

namespace Piece

def glyphs : Piece → List Glyph
  | plain g => [g]
  | short m => [byteGlyph 0x5C, byteGlyph m]
  | code l ds => byteGlyph 0x5C :: byteGlyph l :: ds.map byteGlyph

def bytes : Piece → Text
  | plain g => g.bytes
  | short m => [0x5C, m]
  | code l ds => 0x5C :: l :: ds

def text : Piece → Text
  | plain g => g.bytes
  | short m => (shortEscape? m).toList
  | code _ ds => Text.encode (codeOf ds)

/-- The code unit that an escape of digits writes. -/
def unit? : Piece → Option Nat
  | code _ ds => some (codeOf ds)
  | _ => none

/-- Whether a piece is an escape of digits with the small letter. -/
def isSmall : Piece → Bool
  | code l _ => l == 0x75
  | _ => false

/-- The character of two escapes of digits that write a surrogate pair. -/
def joined? (p q : Piece) : Option Nat := p.unit?.bind fun high => q.unit?.bind (pair? high)

inductive Fits (quote : Char) : Piece → Prop
  | plain {g : Glyph} (spelled : g.Spelled) (h : isPlain quote g.code = true) :
      Fits quote (.plain g)
  | short {m c : UInt8} (h : shortEscape? m = some c) : Fits quote (.short m)
  | code {l : UInt8} {ds : Text} (letter : l = 0x75 ∨ l = 0x55) (length : ds.length = 4)
    (digits : ∀ d ∈ ds, isHexDigit d.toNat = true) : Fits quote (.code l ds)

theorem flatMap_bytes_glyphs (p : Piece) : p.glyphs.flatMap (·.bytes) = p.bytes := by
  cases p with
  | plain g => exact List.flatMap_singleton _ _
  | short m => rfl
  | code l ds =>
    rw [glyphs, List.flatMap_cons, List.flatMap_cons, List.flatMap_map]
    exact congrArg (0x5C :: l :: ·) (List.flatMap_singleton' ds)

end Piece

open Piece

def body (ps : List Piece) : Text := ps.flatMap Piece.bytes

@[simp] theorem body_nil : body [] = [] := rfl

@[simp] theorem body_cons (p : Piece) (ps : List Piece) : body (p :: ps) = p.bytes ++ body ps := rfl

/-- The text that pieces spell; `passed` says that the first of them is the second half of a
pair. -/
def decode : Bool → List Piece → Text
  | _, [] => []
  | true, _ :: ps => decode false ps
  | false, p :: ps =>
    match (ps.head?.filter isSmall).bind p.joined? with
    | some c => Text.encode c ++ decode true ps
    | none => p.text ++ decode false ps

/-- A piece that is no first half of a pair spells its own text. -/
theorem decode_alone {p : Piece} (h : ∀ q, p.joined? q = none) (ps : List Piece) :
    decode false (p :: ps) = p.text ++ decode false ps := by
  rw [decode, funext h, Option.bind_fun_none]

/-- Two halves of a pair spell one character. -/
theorem decode_joined {p q : Piece} {c : Nat} (hq : q.isSmall = true) (h : p.joined? q = some c)
    (ps : List Piece) :
    decode false (p :: q :: ps) = Text.encode c ++ decode false ps := by
  rw [decode, List.head?_cons, Option.filter_some_pos hq, Option.bind_some, h]
  rfl

section Pairs

variable {high low c : Nat}

/-- What is no first half makes no pair. -/
theorem pair?_eq_none (h : high < 0xD800 ∨ 0xDC00 ≤ high) (low : Nat) : pair? high low = none := by
  refine if_neg ?_
  simp only [Bool.and_eq_true, decide_eq_true_eq]
  omega

/-- The halves of a pair and its character, which is beyond the basic plane. -/
theorem pair?_eq_some (h : pair? high low = some c) :
    (0xD800 ≤ high ∧ high < 0xDC00) ∧ (0xDC00 ≤ low ∧ low < 0xE000) ∧ 0x10000 ≤ c ∧
      c < 0x110000 := by
  unfold pair? at h
  split at h
  · rename_i hrange
    simp only [Bool.and_eq_true, decide_eq_true_eq] at hrange
    cases h
    omega
  · cases h

end Pairs

section Digits

variable {ds : Text}

theorem hexValue?_isSome {d : UInt8} (h : isHexDigit d.toNat = true) :
    (hexValue? d).isSome = true := by
  have hall : ∀ n < 256, isHexDigit (UInt8.ofNat n).toNat = true →
      (hexValue? (UInt8.ofNat n)).isSome = true := by
    decide +kernel
  have := hall d.toNat d.toNat_lt
  rw [UInt8.ofNat_toNat] at this
  exact this h

theorem mapM_hexValue? (digits : ∀ d ∈ ds, isHexDigit d.toNat = true) :
    ds.mapM hexValue? = some (ds.map fun d => (hexValue? d).getD 0) := by
  induction ds with
  | nil => rfl
  | cons d ds ih =>
    obtain ⟨hd, hds⟩ := List.forall_mem_cons.1 digits
    obtain ⟨v, hv⟩ := Option.isSome_iff_exists.1 (hexValue?_isSome hd)
    rw [List.mapM_cons, ih hds, hv, List.map_cons, hv]
    rfl

/-- Four hexadecimal digits are read as their number. -/
theorem hexFour_append (length : ds.length = 4)
    (digits : ∀ d ∈ ds, isHexDigit d.toNat = true) (t : Text) :
    hexFour (ds ++ t) = .ok (codeOf ds) := by
  rw [hexFour, List.take_left' length, if_neg (by omega), mapM_hexValue? digits]
  dsimp only
  rw [List.foldl_map, codeOf]

end Digits

section Steps

variable {t : Text}

/-- The bytes of the current escape are passed. -/
theorem unescapeFrom_eq (skip : Nat) (t : Text) : unescapeFrom skip t = unescape (t.drop skip) := by
  induction skip generalizing t with
  | zero => rfl
  | succ skip ih =>
    cases t with
    | nil => rfl
    | cons b t => exact ih t

theorem unescape_byte {b : UInt8} (hb : b ≠ 0x5C) :
    unescape (b :: t) = (unescape t).map (b :: ·) := by
  rw [unescape, unescapeFrom.eq_def]
  dsimp only
  rw [if_pos (bne_iff_ne.2 hb)]
  rfl

theorem unescape_plain {w : Text} (hw : ∀ b ∈ w, b ≠ 0x5C) :
    unescape (w ++ t) = (unescape t).map (w ++ ·) := by
  induction w with
  | nil =>
    rw [List.nil_append]
    cases unescape t <;> rfl
  | cons b w ih =>
    obtain ⟨hb, hw⟩ := List.forall_mem_cons.1 hw
    rw [List.cons_append, unescape_byte hb, ih hw]
    cases unescape t <;> rfl

theorem unescape_short {m c : UInt8} (h : shortEscape? m = some c) :
    unescape (0x5C :: m :: t) = (unescape t).map (c :: ·) := by
  rw [unescape, unescapeFrom, if_neg (by decide), h]
  rfl

theorem shortEscape?_letter {l : UInt8} (hl : l = 0x75 ∨ l = 0x55) : shortEscape? l = none := by
  rcases hl with rfl | rfl <;> rfl

theorem unescape_code {l : UInt8} (hl : l = 0x75 ∨ l = 0x55) {ds : Text} (length : ds.length = 4)
    (digits : ∀ d ∈ ds, isHexDigit d.toNat = true) :
    unescape (0x5C :: l :: (ds ++ t)) =
      match lowHalf? (codeOf ds) t with
      | some c => (unescape (t.drop 6)).map (Text.encode c ++ ·)
      | none => (unescape t).map (Text.encode (codeOf ds) ++ ·) := by
  have hletter : (l == 0x75 || l == 0x55) = true := by simpa using hl
  have hdrop : (ds ++ t).drop 4 = t := List.drop_left' length
  have hpair : (ds ++ t).drop 10 = t.drop 6 := by
    rw [List.drop_append, length, List.drop_eq_nil_of_le (by omega), List.nil_append]
  rw [unescape, unescapeFrom, if_neg (by decide), shortEscape?_letter hl]
  dsimp only
  rw [if_pos hletter, hexFour_append length digits]
  dsimp only
  rw [hdrop]
  cases lowHalf? (codeOf ds) t with
  | none =>
    dsimp only
    rw [unescapeFrom_eq, List.drop_succ_cons, hdrop]
  | some c =>
    dsimp only
    rw [unescapeFrom_eq, List.drop_succ_cons, hpair]

end Steps

section Decoding

variable {quote : Char} {p : Piece} {ps : List Piece}

/-- A character that stands for itself has no backslash. -/
theorem ne_backslash {g : Glyph} (spelled : g.Spelled) (h : isPlain quote g.code = true) :
    ∀ b ∈ g.bytes, b ≠ 0x5C := by
  rintro b hb rfl
  have hcode : g.code ≠ 0x5C := by
    intro hcode
    simp [isPlain, hcode] at h
  cases spelled with
  | ascii hlt =>
    rw [List.mem_singleton] at hb
    subst hb
    exact hcode rfl
  | encoded hc => exact absurd (Text.le_of_mem_encode hc hb) (by decide)
  | stray hstray =>
    rw [List.mem_singleton] at hb
    subst hb
    exact absurd hstray (by decide)

/-- The second half of a pair can only be the next piece, with the small letter. -/
theorem lowHalf?_body (hps : ∀ p ∈ ps, p.Fits quote) (high : Nat) :
    lowHalf? high (body ps) = (ps.head?.filter isSmall).bind fun q =>
      q.unit?.bind (pair? high) := by
  cases ps with
  | nil => rfl
  | cons p ps =>
    cases hps p List.mem_cons_self with
    | @plain g spelled h =>
      obtain ⟨b, w, hw⟩ := List.exists_cons_of_ne_nil spelled.bytes_ne_nil
      have hb : b ≠ 0x5C := ne_backslash spelled h b (hw ▸ List.mem_cons_self)
      rw [body_cons, Piece.bytes, hw]
      unfold lowHalf?
      split
      · rename_i heq
        exact absurd (List.cons.inj heq).1 hb
      · rfl
    | @short m c h =>
      have hm : m ≠ 0x75 := by
        rintro rfl
        cases h
      rw [body_cons, Piece.bytes]
      unfold lowHalf?
      split
      · rename_i heq
        exact absurd (List.cons.inj (List.cons.inj heq).2).1 hm
      · rfl
    | @code l ds letter length digits =>
      rw [body_cons, Piece.bytes]
      rcases letter with rfl | rfl
      · simp only [List.cons_append, lowHalf?, hexFour_append length digits]
        rfl
      · rfl

/-- A body of pieces decodes to what they spell. -/
theorem unescape_body (hps : ∀ p ∈ ps, p.Fits quote) :
    unescape (body ps) = .ok (decode false ps) := by
  -- the pieces after the first are needed too, for where it is a half of a pair
  suffices h : unescape (body ps) = .ok (decode false ps) ∧
    unescape (body ps.tail) = .ok (decode true ps) from h.1
  induction ps with
  | nil => exact ⟨rfl, rfl⟩
  | cons p ps ih =>
    obtain ⟨hp, hpieces⟩ := List.forall_mem_cons.1 hps
    obtain ⟨ih, ihtail⟩ := ih hpieces
    refine ⟨?_, ih⟩
    cases hp with
    | plain spelled h =>
      rw [decode_alone fun _ => rfl, body_cons, Piece.bytes,
        unescape_plain (ne_backslash spelled h), ih]
      rfl
    | short h =>
      rw [decode_alone fun _ => rfl, body_cons, Piece.bytes, List.cons_append,
        List.singleton_append, unescape_short h, ih, Piece.text, h]
      rfl
    | @code l ds letter length digits =>
      have hjoined : joined? (.code l ds) = fun q => q.unit?.bind (pair? (codeOf ds)) := rfl
      rw [body_cons, Piece.bytes, List.cons_append, List.cons_append,
        unescape_code letter length digits, lowHalf?_body hpieces, decode, hjoined]
      cases hnext : (ps.head?.filter isSmall).bind fun q => q.unit?.bind (pair? (codeOf ds)) with
      | none =>
        dsimp only
        rw [ih]
        rfl
      | some c =>
        dsimp only
        obtain ⟨q, hq, hunit⟩ := Option.bind_eq_some_iff.1 hnext
        obtain ⟨hq, -⟩ := Option.filter_eq_some_iff.1 hq
        obtain ⟨qs, rfl⟩ := List.head?_eq_some_iff.1 hq
        have hlength : q.bytes.length = 6 := by
          cases hpieces q List.mem_cons_self with
          | plain => cases hunit
          | short => cases hunit
          | code _ length _ => rw [Piece.bytes, List.length_cons, List.length_cons, length]
        rw [body_cons, List.drop_left' hlength]
        rw [List.tail_cons] at ihtail
        rw [ihtail]
        rfl

end Decoding

section Accepted

variable {quote : Char} {gs : List Glyph}

theorem exists_bytes (hspelled : ∀ g ∈ gs, g.Spelled) (hlt : ∀ g ∈ gs, g.code < 0x80) : ∃ t : Text,
    t.map byteGlyph = gs := by
  have hrange : gs ∈ Set.range (List.map byteGlyph) := by
    rw [Set.range_list_map]
    exact fun g hg => (hspelled g hg).exists_byte (hlt g hg)
  exact hrange

/-- The mark of a short escape, as the lexer and as the decoder know it. -/
theorem shortEscape_iff {m : UInt8} : shortEscape m.toNat = true ↔ ∃ c,
    shortEscape? m = some c := by
  have hall : ∀ n < 256, shortEscape (UInt8.ofNat n).toNat =
    (shortEscape? (UInt8.ofNat n)).isSome := by decide +kernel
  have := hall m.toNat m.toNat_lt
  rw [UInt8.ofNat_toNat] at this
  rw [this, Option.isSome_iff_exists]

theorem shortEscape_lt {c : Nat} (h : shortEscape c = true) : c < 0x80 := by
  simp [shortEscape] at h
  omega

/-- What the lexer takes for one character between quotes is a piece. -/
theorem exists_piece (hspelled : ∀ g ∈ gs, g.Spelled)
    (h : gs.map (·.code) ∈ Words.character quote) :
    ∃ p : Piece, p.Fits quote ∧ p.glyphs = gs := by
  have hbyte : ∀ g ∈ gs, g.code < 0x80 → ∃ b, byteGlyph b = g := fun g hg =>
    (hspelled g hg).exists_byte
  rcases h with ⟨c, hc, hone⟩ | hescape
  · obtain ⟨g, rfl, rfl⟩ := List.map_eq_singleton_iff.1 hone
    exact ⟨.plain g, .plain (hspelled g List.mem_cons_self) hc, rfl⟩
  · obtain ⟨-, ⟨c, hslash, rfl⟩, w, hw, hcodes⟩ := Language.mem_mul.1 hescape
    obtain ⟨slash, rest, rfl, rfl, hrest⟩ := List.map_eq_cons_iff.1
      (hcodes.symm.trans List.singleton_append)
    obtain ⟨s, rfl⟩ := hbyte slash List.mem_cons_self (by rw [beq_iff_eq.1 hslash]; decide)
    obtain rfl : s = 0x5C := UInt8.toNat_inj.1 (beq_iff_eq.1 hslash)
    rcases hw with ⟨c, hc, rfl⟩ | hcode
    · obtain ⟨mark, rfl, rfl⟩ := List.map_eq_singleton_iff.1 hrest
      obtain ⟨m, rfl⟩ := hbyte mark (by simp) (shortEscape_lt hc)
      obtain ⟨c, hshort⟩ := shortEscape_iff.1 hc
      exact ⟨.short m, .short hshort, rfl⟩
    · obtain ⟨-, ⟨c, hletter, rfl⟩, v, hv, rfl⟩ := Language.mem_mul.1 hcode
      obtain ⟨letter, digits, rfl, rfl, rfl⟩ := List.map_eq_cons_iff.1 hrest
      obtain ⟨hlength, hdigits⟩ := mem_oneOf_pow.1 hv
      have hcase : letter.code = 0x75 ∨ letter.code = 0x55 := by simpa [isEither] using hletter
      obtain ⟨l, rfl⟩ := hbyte letter (by simp) (by rcases hcase with h | h <;> rw [h] <;> decide)
      have hascii : ∀ g ∈ digits, g.code < 0x80 := fun g hg =>
        lt_of_isHexDigit (hdigits _ (List.mem_map_of_mem hg))
      obtain ⟨ds, rfl⟩ := exists_bytes (fun g hg => hspelled g (by simp [hg])) hascii
      refine ⟨.code l ds, .code ?_ (by simpa using hlength) ?_, rfl⟩
      · exact hcase.imp (fun h => UInt8.toNat_inj.1 h) fun h => UInt8.toNat_inj.1 h
      · exact fun d hd => hdigits _ (List.mem_map_of_mem (List.mem_map_of_mem hd))

/-- What the lexer takes for characters between quotes are pieces. -/
theorem exists_pieces (hspelled : ∀ g ∈ gs, g.Spelled)
    (h : gs.map (·.code) ∈ (Words.character quote)∗) :
    ∃ ps : List Piece, (∀ p ∈ ps, p.Fits quote) ∧ ps.flatMap Piece.glyphs = gs := by
  obtain ⟨ws, hcodes, hws⟩ := Language.mem_kstar.1 h
  induction ws generalizing gs with
  | nil => exact ⟨[], nofun, (List.map_eq_nil_iff.1 hcodes).symm⟩
  | cons w ws ih =>
    obtain ⟨hw, hmore⟩ := List.forall_mem_cons.1 hws
    rw [List.flatten_cons] at hcodes
    obtain ⟨a, b, rfl, rfl, hb⟩ := List.map_eq_append_iff.1 hcodes
    obtain ⟨p, hp, rfl⟩ := exists_piece (fun g hg => hspelled g (List.mem_append_left b hg)) hw
    obtain ⟨ps, hps, rfl⟩ := ih (fun g hg => hspelled g (List.mem_append_right _ hg))
      (hb ▸ Language.join_mem_kstar hmore) hb hmore
    exact ⟨p :: ps, List.forall_mem_cons.2 ⟨hp, hps⟩, rfl⟩

/-- And a piece is taken for a character. -/
theorem Piece.Fits.mem_character {p : Piece} (h : p.Fits quote) :
    p.glyphs.map (·.code) ∈ Words.character quote := by
  have hslash : [0x5C] ∈ Words.sign '\\' := ⟨0x5C, rfl, rfl⟩
  cases h with
  | plain _ h => exact .inl ⟨_, h, rfl⟩
  | @short m c h =>
    have hmark : [m.toNat] ∈ oneOf shortEscape := ⟨_, shortEscape_iff.2 ⟨c, h⟩, rfl⟩
    exact .inr (Language.append_mem_mul hslash (.inl hmark))
  | @code l ds letter length digits =>
    have hletter : [l.toNat] ∈ Words.letter 'u' :=
      ⟨_, by rcases letter with rfl | rfl <;> decide, rfl⟩
    have hdigits : (ds.map byteGlyph).map (·.code) ∈ Words.hexDigit ^ 4 := by
      refine mem_oneOf_pow.2 ⟨by rw [List.length_map, List.length_map, length], fun c hc => ?_⟩
      rw [List.map_map] at hc
      obtain ⟨d, hd, rfl⟩ := List.mem_map.1 hc
      exact digits d hd
    exact .inr (Language.append_mem_mul hslash (.inr (Language.append_mem_mul hletter hdigits)))

theorem mem_characters {ps : List Piece} (hps : ∀ p ∈ ps, p.Fits quote) :
    (ps.flatMap Piece.glyphs).map (·.code) ∈ (Words.character quote)∗ := by
  refine Language.mem_kstar.2 ⟨ps.map fun p =>
    p.glyphs.map (·.code), List.map_flatMap, fun w hw => ?_⟩
  obtain ⟨p, hp, rfl⟩ := List.mem_map.1 hw
  exact (hps p hp).mem_character

end Accepted

section Tokens

variable {o : Options} {text : Text} {t : Token}

theorem flatMap_glyphs (ps : List Piece) : (ps.flatMap Piece.glyphs).flatMap
    (·.bytes) = body ps := by
  rw [List.flatMap_assoc, body]
  exact List.flatMap_congr fun p _ => p.flatMap_bytes_glyphs

/-- The characters of a word between quotes, and the quotes around them. -/
theorem exists_inner {gs : List Glyph} (hspelled : ∀ g ∈ gs, g.Spelled) {quote : Char} {b : UInt8}
    (hquote : b.toNat = quote.toNat) (hlt : b.toNat < 0x80) {L : Language Nat}
    (h : gs.map (·.code) ∈ Words.sign quote * L * Words.sign quote) :
    ∃ inner, (∀ g ∈ inner, g.Spelled) ∧ inner.map (·.code) ∈ L ∧
      gs = byteGlyph b :: (inner ++ [byteGlyph b]) := by
  have hsign : ∀ g ∈ gs, (g.code == quote.toNat) = true → g = byteGlyph b := by
    intro g hg hcode
    have hcode : g.code = b.toNat := (beq_iff_eq.1 hcode).trans hquote.symm
    obtain ⟨d, rfl⟩ := (hspelled g hg).exists_byte (hcode ▸ hlt)
    rw [UInt8.toNat_inj.1 hcode]
  obtain ⟨_, hfront, _, ⟨c, hc, rfl⟩, hcodes⟩ := Language.mem_mul.1 h
  obtain ⟨_, ⟨d, hd, rfl⟩, v, hv, rfl⟩ := Language.mem_mul.1 hfront
  obtain ⟨front, last, rfl, hfront, hlast⟩ := List.map_eq_append_iff.1 hcodes.symm
  obtain ⟨first, inner, rfl, rfl, rfl⟩ := List.map_eq_cons_iff.1
    (hfront.trans List.singleton_append)
  obtain ⟨final, rfl, rfl⟩ := List.map_eq_singleton_iff.1 hlast
  refine ⟨inner, fun g hg => hspelled g (by simp [hg]), hv, ?_⟩
  rw [hsign first (by simp) hd, hsign final (by simp) hc]
  rfl

structure Quoted (quote : Char) (ps : List Piece) (image : Text) : Prop where
  fits : ∀ p ∈ ps, p.Fits quote
  image_eq : image = quote.toNat.toUInt8 :: (body ps ++ [quote.toNat.toUInt8])

/-- The image of a token that one scanner takes, where that takes words between quotes. -/
theorem exists_inner_image (ht : t ∈ ((Lexer.ofOptions o).tokenize text).1) {s : Scanner}
    (hs : (t.kind, s) ∈ scanners o)
    (honly : ∀ s', (t.kind, s') ∈ scanners o → s' = s) {quote : Char} (hlt : quote.toNat < 0x80)
    {L : Language Nat} (hscans : Scans s (Words.sign quote * L * Words.sign quote)) :
    ∃ inner : List Glyph, (∀ g ∈ inner, g.Spelled) ∧ inner.map (·.code) ∈ L ∧
      t.image = quote.toNat.toUInt8 :: (inner.flatMap (·.bytes) ++ [quote.toNat.toUInt8]) := by
  obtain ⟨rest, n, hspelled, htaken, himage⟩ := spelled_of_token ht
  obtain ⟨s', hs', hn⟩ := scanned_of_tokenAt? htaken (List.mem_map_of_mem hs)
  rw [honly s' hs'] at hn
  have hquote : quote.toNat.toUInt8.toNat = quote.toNat := Text.toNat_toUInt8 (by omega)
  obtain ⟨inner, hinner, hmem, hform⟩ := exists_inner hspelled hquote (by omega) (hscans.taken hn).2
  refine ⟨inner, hinner, hmem, ?_⟩
  have hpos : n ≠ 0 := by
    rintro rfl
    cases hform
  rw [himage hpos, hform, List.flatMap_cons, List.flatMap_append, List.flatMap_singleton]
  rfl

/-- A token of a string is pieces between double quotes. -/
theorem string_pieces (ht : t ∈ ((Lexer.ofOptions o).tokenize text).1) (hk : t.kind = .string) :
    ∃ ps, Quoted '"' ps t.image := by
  obtain ⟨inner, hinner, hmem, himage⟩ := exists_inner_image ht (by simp [hk, scanners])
    (fun s' hs' => by simpa [hk, scanners] using hs') (by decide) scans_string
  obtain ⟨ps, hps, rfl⟩ := exists_pieces hinner hmem
  exact ⟨ps, hps, flatMap_glyphs ps ▸ himage⟩

/-- A token of a character is one piece between single quotes. -/
theorem char_piece (ht : t ∈ ((Lexer.ofOptions o).tokenize text).1) (hk : t.kind = .char) :
    ∃ p, Quoted '\'' [p] t.image := by
  obtain ⟨inner, hinner, hmem, himage⟩ := exists_inner_image ht (by simp [hk, scanners])
    (fun s' hs' => by simpa [hk, scanners] using hs') (by decide) scans_char
  obtain ⟨p, hp, rfl⟩ := exists_piece hinner hmem
  have hbody : p.glyphs.flatMap (·.bytes) = body [p] := by
    rw [p.flatMap_bytes_glyphs, body_cons, body_nil, List.append_nil]
  exact ⟨p, List.forall_mem_singleton.2 hp, hbody ▸ himage⟩

end Tokens

end Lexical

end Formulary
