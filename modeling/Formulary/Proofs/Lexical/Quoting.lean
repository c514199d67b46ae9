import Formulary.Build.Literal
import Formulary.Proofs.Lexical.Bodies
import Formulary.Proofs.Lexical.Pruned
import Formulary.Proofs.Lexical.Tiling

/-!
# Literals in quotes

A string literal can spell every string, and in as many ways as its characters can be written
(`Writes`): as they are, by a short escape, or by the escapes of their code units in UTF-16.
Whatever stands next to whatever, the whole is one token and decodes to the string
(`string_written`).

The decoder knows every escape that the lexer takes for one. So a string literal always stands for a
string and a character literal for one character (`quoted_constant`): neither is ever refused for
its form, whatever the text around it and whether or not it is well-formed.
-/

namespace Formulary

open Text (Glyph byteGlyph)
open Computability

namespace Text

theorem isScalar_toNat (c : Char) : isScalar c.toNat = true := by
  have hvalid : c.toNat < 0xD800 ∨ 0xDFFF < c.toNat ∧ c.toNat < 0x110000 := c.valid
  simp only [isScalar, Bool.or_eq_true, Bool.and_eq_true, decide_eq_true_eq]
  omega

theorem spelled_encode (c : Char) : (Glyph.mk c.toNat (encode c.toNat)).Spelled := by
  rcases Nat.lt_or_ge c.toNat 0x80 with hlt | hge
  · have hbyte : c.toNat.toUInt8.toNat = c.toNat := toNat_toUInt8 (by omega)
    have hspelled := Glyph.Spelled.ascii (b := c.toNat.toUInt8) (by omega)
    rwa [hbyte, ← encode_of_lt hlt] at hspelled
  · exact .encoded hge

end Text

namespace Lexical

open Piece

/-- The characters that have a short escape, with the mark behind the backslash. -/
def shortEscapes : List (Char × Char) :=
  [('\\', '\\'), ('"', '"'), ('\'', '\''), ('\t', 't'), ('\r', 'r'), ('\n', 'n')]

def codeUnits (c : Char) : List Nat :=
  if c.toNat < 0x10000 then [c.toNat]
  else [0xD800 + (c.toNat - 0x10000) / 0x400, 0xDC00 + (c.toNat - 0x10000) % 0x400]

def IsDigit (n : Nat) (d : Char) : Prop := d = n.digitChar ∨ d = n.digitChar.toUpper

/-- The escape of a code unit: `\u` and its four hexadecimal digits. -/
def WritesUnit (n : Nat) (w : List Char) : Prop :=
  ∃ ds, w = '\\' :: 'u' :: ds ∧ List.Forall₂ IsDigit
    [n / 0x1000, n / 0x100 % 0x10, n / 0x10 % 0x10, n % 0x10] ds

/-- The ways of writing a character in a string literal: as it is, if it is no double quote, no
backslash and no line end, by its short escape, or by the escapes of its code units. -/
inductive Writes : Char → List Char → Prop
  | plain {c : Char} (h : c ∉ ['"', '\\', '\r', '\n']) : Writes c [c]
  | short {c mark : Char} (h : (c, mark) ∈ shortEscapes) : Writes c ['\\', mark]
  | units {c : Char} {ws : List (List Char)} (h : List.Forall₂ WritesUnit (codeUnits c) ws) :
      Writes c ws.flatten

section Legible

/-- A piece that is read as its own characters, whatever stands behind it. -/
def Piece.Legible (p : Piece) : Prop := ∀ t, Text.glyphs (p.bytes ++ t) = p.glyphs ++ Text.glyphs t

variable {quote : Char} {ps : List Piece}

theorem legible_short {m c : UInt8} (h : shortEscape? m = some c) : (Piece.short m).Legible := by
  have hm : m.toNat < 0x80 := shortEscape_lt (shortEscape_iff.2 ⟨c, h⟩)
  exact Text.glyphs_ascii (w := [0x5C, m]) (by simp [hm])

theorem legible_code {l : UInt8} {ds : Text} (letter : l = 0x75 ∨ l = 0x55)
    (digits : ∀ d ∈ ds, isHexDigit d.toNat = true) : (Piece.code l ds).Legible := by
  have hl : l.toNat < 0x80 := by rcases letter with rfl | rfl <;> decide
  refine Text.glyphs_ascii (w := 0x5C :: l :: ds) ?_
  simp only [List.forall_mem_cons]
  exact ⟨by decide, hl, fun d hd => lt_of_isHexDigit (digits d hd)⟩

theorem legible_plain (c : Char) : (Piece.plain ⟨c.toNat, Text.encode c.toNat⟩).Legible :=
  Text.glyphs_encode (Text.isScalar_toNat c)

theorem glyphs_body (h : ∀ p ∈ ps, p.Legible) (t : Text) :
    Text.glyphs (body ps ++ t) = ps.flatMap Piece.glyphs ++ Text.glyphs t := by
  induction ps with
  | nil => rfl
  | cons p ps ih =>
    obtain ⟨hp, hps⟩ := List.forall_mem_cons.1 h
    rw [body_cons, List.append_assoc, hp, ih hps, List.flatMap_cons, List.append_assoc]

/-- Legible pieces between double quotes are one token. -/
theorem tokenize_body {o : Options} (hpoint : o.decimalPoint = 0x2E) (hcomma : o.separator = 0x2C)
    (hps : ∀ p ∈ ps, p.Fits '"') (hlegible : ∀ p ∈ ps, p.Legible) :
    (Lexer.ofOptions o).tokenize (0x22 :: (body ps ++ [0x22])) =
      ([⟨.string, 0x22 :: (body ps ++ [0x22]), {}⟩], []) := by
  have hglyphs : Text.glyphs (0x22 :: (body ps ++ [0x22])) =
      byteGlyph 0x22 :: (ps.flatMap Piece.glyphs ++ [byteGlyph 0x22]) := by
    have hopen := Text.glyphs_ascii (List.forall_mem_singleton.2
      (by decide : (0x22 : UInt8).toNat < 0x80)) (body ps ++ [0x22])
    rw [glyphs_body hlegible] at hopen
    exact hopen
  have hmem : (Text.glyphs (0x22 :: (body ps ++ [0x22]))).map (·.code) ∈ Words.string := by
    have hquote : [0x22] ∈ Words.sign '"' := ⟨0x22, rfl, rfl⟩
    rw [hglyphs, List.map_cons, List.map_append]
    exact Language.append_mem_mul (Language.append_mem_mul hquote (mem_characters hps)) hquote
  have hscan : scanString (Text.glyphs (0x22 :: (body ps ++ [0x22]))) =
      some (Text.glyphs (0x22 :: (body ps ++ [0x22]))).length := by
    obtain ⟨n, hn, hle⟩ := scans_string.found hmem []
    rw [List.append_nil] at hn
    rw [hn, Nat.le_antisymm (scans_string.taken hn).1 hle]
  have htoken : (Lexer.ofOptions o).tokenAt? (Text.glyphs (0x22 :: (body ps ++ [0x22]))) =
      some (.string, (Text.glyphs (0x22 :: (body ps ++ [0x22]))).length) := by
    have hfixed : (Lexer.ofOptions o).dictionary.longest?
        (Text.glyphs (0x22 :: (body ps ++ [0x22]))) = none := by
      rw [hglyphs]
      exact longest?_quote hcomma rfl _
    rw [tokenAt?_eq_longestScan hfixed]
    exact longestScan_quoted hpoint List.mem_cons_self hscan
  have hblank : ∀ g ∈ (Text.glyphs (0x22 :: (body ps ++ [0x22]))).head?,
      isBlank g.code = false := by
    rw [hglyphs]
    rintro g ⟨⟩
    rfl
  have hlexemes := lexemes_lone (p := {}) hblank
    (by rw [hglyphs]; exact List.cons_ne_nil _ _) htoken
  rw [Text.flatMap_bytes_glyphs] at hlexemes
  rw [Lexer.tokenize, read_eq, Lexer.outline, hlexemes]
  rfl

end Legible

section Digits

theorem digit_byte {n : Nat} (hn : n < 16) {d : Char} (h : IsDigit n d) :
    d.toNat < 0x80 ∧ isHexDigit d.toNat.toUInt8.toNat = true ∧
      hexValue? d.toNat.toUInt8 = some n := by
  have hsmall : ∀ n < 16, n.digitChar.toNat < 0x80 ∧
    isHexDigit n.digitChar.toNat.toUInt8.toNat = true ∧
      hexValue? n.digitChar.toNat.toUInt8 = some n := by decide +kernel
  have hcapital : ∀ n < 16, n.digitChar.toUpper.toNat < 0x80 ∧
      isHexDigit n.digitChar.toUpper.toNat.toUInt8.toNat = true ∧
        hexValue? n.digitChar.toUpper.toNat.toUInt8 = some n := by decide +kernel
  rcases h with rfl | rfl
  · exact hsmall n hn
  · exact hcapital n hn

/-- The bytes of some digits. -/
def digitBytes (ds : List Char) : Text := ds.map fun d => d.toNat.toUInt8

theorem digits_bytes {ns : List Nat} {ds : List Char} (h : List.Forall₂ IsDigit ns ds)
    (hns : ∀ n ∈ ns, n < 16) :
    ds.flatMap (fun d => Text.encode d.toNat) = digitBytes ds ∧
      (∀ b ∈ digitBytes ds, isHexDigit b.toNat = true) ∧
      (digitBytes ds).map (fun b => (hexValue? b).getD 0) = ns := by
  induction h with
  | nil => exact ⟨rfl, nofun, rfl⟩
  | @cons n d ns ds hd _ ih =>
    obtain ⟨hn, hns⟩ := List.forall_mem_cons.1 hns
    obtain ⟨hencode, hdigits, hvalues⟩ := ih hns
    obtain ⟨hlt, hdigit, hvalue⟩ := digit_byte hn hd
    refine ⟨?_, List.forall_mem_cons.2 ⟨hdigit, hdigits⟩, ?_⟩
    · rw [List.flatMap_cons, hencode, Text.encode_of_lt hlt]
      rfl
    · rw [digitBytes, List.map_cons, List.map_cons, hvalue]
      exact congrArg (n :: ·) hvalues

/-- The escape of a code unit is a piece with its number. -/
theorem exists_code {n : Nat} (hn : n < 0x10000) {w : List Char} (h : WritesUnit n w) :
    ∃ ds, (Piece.code 0x75 ds).Fits '"' ∧ (Piece.code 0x75 ds).Legible ∧ codeOf ds = n ∧
      w.flatMap (fun d => Text.encode d.toNat) = (Piece.code 0x75 ds).bytes := by
  obtain ⟨ds, rfl, hds⟩ := h
  obtain ⟨hencode, hdigits, hvalues⟩ := digits_bytes hds (by simp; omega)
  have hlength : (digitBytes ds).length = 4 := by
    rw [digitBytes, List.length_map, ← hds.length_eq]; rfl
  refine ⟨digitBytes ds, .code (.inl rfl) hlength hdigits, legible_code (.inl rfl) hdigits, ?_, ?_⟩
  · rw [codeOf, ← List.foldl_map (f := fun b => (hexValue? b).getD 0) (g := fun n d =>
      n * 16 + d), hvalues]
    simp only [List.foldl_cons, List.foldl_nil]
    omega
  · rw [List.flatMap_cons, List.flatMap_cons, hencode]
    rfl

end Digits

section Written

structure Transcribes (ps : List Piece) (c : Char) (w : List Char) : Prop where
  fits : ∀ p ∈ ps, p.Fits '"'
  legible : ∀ p ∈ ps, p.Legible
  bytes : w.flatMap (fun d => Text.encode d.toNat) = body ps
  decodes : ∀ qs, decode false (ps ++ qs) = Text.encode c.toNat ++ decode false qs

variable {c : Char} {w : List Char}

theorem transcribes_plain (h : c ∉ ['"', '\\', '\r', '\n']) :
    Transcribes [.plain ⟨c.toNat, Text.encode c.toNat⟩] c [c] := by
  have hplain : isPlain '"' c.toNat = true := by
    simp only [List.mem_cons, List.not_mem_nil, or_false, not_or, ← Char.toNat_inj] at h
    simpa [isPlain, isLineEnd, and_assoc, and_left_comm] using h
  exact ⟨List.forall_mem_singleton.2 (.plain (Text.spelled_encode c) hplain),
    List.forall_mem_singleton.2 (legible_plain c), rfl, fun qs => decode_alone (fun _ => rfl) qs⟩

theorem transcribes_short {mark : Char} (h : (c, mark) ∈ shortEscapes) :
    Transcribes [.short mark.toNat.toUInt8] c ['\\', mark] := by
  have hall : ∀ e ∈ shortEscapes, e.1.toNat < 0x80 ∧ e.2.toNat < 0x80 ∧
      shortEscape? e.2.toNat.toUInt8 = some e.1.toNat.toUInt8 := by decide
  obtain ⟨hc, hmark, hshort⟩ := hall _ h
  refine ⟨List.forall_mem_singleton.2 (.short hshort),
    List.forall_mem_singleton.2 (legible_short hshort), ?_, fun qs => ?_⟩
  · rw [List.flatMap_cons, List.flatMap_singleton, Text.encode_of_lt hmark]
    rfl
  · rw [List.singleton_append, decode_alone fun _ => rfl, Piece.text, hshort, Text.encode_of_lt hc]
    rfl

/-- The code units of a character beyond the basic plane are a pair that stands for it. -/
theorem pair?_codeUnits {n : Nat} (hn : 0x10000 ≤ n) (hlt : n < 0x110000) :
    pair? (0xD800 + (n - 0x10000) / 0x400) (0xDC00 + (n - 0x10000) % 0x400) = some n := by
  rw [pair?, if_pos]
  · congr 1
    omega
  · simp only [Bool.and_eq_true, decide_eq_true_eq]
    omega

theorem exists_transcribes_units {ws : List (List Char)}
    (h : List.Forall₂ WritesUnit (codeUnits c) ws) :
    ∃ ps, Transcribes ps c ws.flatten := by
  have hvalid : c.toNat < 0xD800 ∨ 0xDFFF < c.toNat ∧ c.toNat < 0x110000 := c.valid
  unfold codeUnits at h
  split at h
  · rename_i hbasic
    obtain ⟨w, _, hw, hnil, rfl⟩ := List.forall₂_cons_left_iff.1 h
    obtain rfl := List.forall₂_nil_left_iff.1 hnil
    obtain ⟨ds, hfits, hlegible, hcode, hbytes⟩ := exists_code hbasic hw
    refine ⟨[.code 0x75 ds], List.forall_mem_singleton.2 hfits,
      List.forall_mem_singleton.2 hlegible, ?_, fun qs => ?_⟩
    · rw [List.flatten_cons, List.flatten_nil, List.append_nil, hbytes, body_cons, body_nil,
        List.append_nil]
    · have hapart : c.toNat < 0xD800 ∨ 0xDC00 ≤ c.toNat := by omega
      have halone : ∀ q, (Piece.code 0x75 ds).joined? q = none := by
        intro q
        cases q with
        | code _ ds' => exact (congrArg (pair? · (codeOf ds')) hcode).trans (pair?_eq_none hapart _)
        | _ => rfl
      rw [List.singleton_append, decode_alone halone, Piece.text, hcode]
  · rename_i hbeyond
    obtain ⟨w, _, hw, hlow, rfl⟩ := List.forall₂_cons_left_iff.1 h
    obtain ⟨w', _, hw', hnil, rfl⟩ := List.forall₂_cons_left_iff.1 hlow
    obtain rfl := List.forall₂_nil_left_iff.1 hnil
    obtain ⟨ds, hfits, hlegible, hcode, hbytes⟩ := exists_code (by omega) hw
    obtain ⟨ds', hfits', hlegible', hcode', hbytes'⟩ := exists_code (by omega) hw'
    refine ⟨[.code 0x75 ds, .code 0x75 ds'], ?_, ?_, ?_, fun qs => ?_⟩
    · exact List.forall_mem_cons.2 ⟨hfits, List.forall_mem_singleton.2 hfits'⟩
    · exact List.forall_mem_cons.2 ⟨hlegible, List.forall_mem_singleton.2 hlegible'⟩
    · rw [List.flatten_cons, List.flatten_cons, List.flatten_nil, List.append_nil,
        List.flatMap_append, hbytes, hbytes', body_cons, body_cons, body_nil, List.append_nil]
    · have hjoined : (Piece.code 0x75 ds).joined? (.code 0x75 ds') = some c.toNat := by
        show pair? (codeOf ds) (codeOf ds') = some c.toNat
        rw [hcode, hcode', pair?_codeUnits (Nat.le_of_not_lt hbeyond) (by omega)]
      exact decode_joined rfl hjoined qs

theorem Writes.exists_transcribes (h : Writes c w) : ∃ ps, Transcribes ps c w := by
  cases h with
  | plain h => exact ⟨_, transcribes_plain h⟩
  | short h => exact ⟨_, transcribes_short h⟩
  | units h => exact exists_transcribes_units h

/-- A character after the other, whatever the ways in which they are written. -/
theorem exists_pieces_of_writes {cs : List Char} {ws : List (List Char)}
    (h : List.Forall₂ Writes cs ws) :
    ∃ ps : List Piece, (∀ p ∈ ps, p.Fits '"') ∧ (∀ p ∈ ps, p.Legible) ∧
      ws.flatten.flatMap (fun d => Text.encode d.toNat) = body ps ∧
        decode false ps = cs.flatMap fun c => Text.encode c.toNat := by
  induction h with
  | nil => exact ⟨[], nofun, nofun, rfl, rfl⟩
  | @cons c w cs ws hw _ ih =>
    obtain ⟨ps, hps⟩ := hw.exists_transcribes
    obtain ⟨qs, hfits, hlegible, hbytes, hdecode⟩ := ih
    refine ⟨ps ++ qs, fun p hp => ?_, fun p hp => ?_, ?_, ?_⟩
    · exact (List.mem_append.1 hp).elim (hps.fits p) (hfits p)
    · exact (List.mem_append.1 hp).elim (hps.legible p) (hlegible p)
    · rw [List.flatten_cons, List.flatMap_append, hps.bytes, hbytes, body, body, body,
        List.flatMap_append]
    · rw [hps.decodes, hdecode, List.flatMap_cons]

/-- However the characters of a string are written, in double quotes they are one token of a string,
and it decodes to the string. -/
theorem string_written (s : String) {ws : List (List Char)} (h : List.Forall₂ Writes s.toList ws) :
    (Lexer.ofOptions {}).tokenize (0x22 :: (Text.ofString (String.ofList ws.flatten) ++ [0x22])) =
      ([⟨.string, 0x22 :: (Text.ofString (String.ofList ws.flatten) ++ [0x22]), {}⟩], []) ∧
    unescape (Text.ofString (String.ofList ws.flatten)) = .ok (Text.ofString s) := by
  obtain ⟨ps, hfits, hlegible, hbytes, hdecode⟩ := exists_pieces_of_writes h
  have hbody : Text.ofString (String.ofList ws.flatten) = body ps := by
    rw [Text.ofString_eq, String.toList_ofList, hbytes]
  rw [hbody, unescape_body hfits, hdecode, Text.ofString_eq s]
  exact ⟨tokenize_body rfl rfl hfits hlegible, rfl⟩

/-- A letter as it is, a quote by its short escape, and a character of two code units with digits in
both cases. -/
theorem string_written_mixed :
    (Lexer.ofOptions {}).tokenize (0x22 :: (Text.ofString "a\\\"\\uD83d\\uDe00" ++ [0x22])) =
      ([⟨.string, 0x22 :: (Text.ofString "a\\\"\\uD83d\\uDe00" ++ [0x22]), {}⟩], []) ∧
    unescape (Text.ofString "a\\\"\\uD83d\\uDe00") = .ok (Text.ofString "a\"😀") := by
  have hhigh : WritesUnit 0xD83D "\\uD83d".toList :=
    ⟨"D83d".toList, rfl, .cons (.inr rfl) (.cons (.inl rfl)
      (.cons (.inl rfl) (.cons (.inl rfl) .nil)))⟩
  have hlow : WritesUnit 0xDE00 "\\uDe00".toList :=
    ⟨"De00".toList, rfl, .cons (.inr rfl) (.cons (.inl rfl)
      (.cons (.inl rfl) (.cons (.inl rfl) .nil)))⟩
  have hpair : Writes '😀' "\\uD83d\\uDe00".toList :=
    .units (c := '😀') (.cons hhigh (.cons hlow .nil))
  have hwrites : List.Forall₂ Writes "a\"😀".toList [['a'], ['\\', '"'], "\\uD83d\\uDe00".toList] :=
    .cons (.plain (by decide)) (.cons (.short (by decide)) (.cons hpair .nil))
  have hflatten : String.ofList ([['a'], ['\\', '"'], "\\uD83d\\uDe00".toList] :
    List (List Char)).flatten =
      "a\\\"\\uD83d\\uDe00" := by decide
  have hwritten := string_written "a\"😀" hwrites
  rwa [hflatten] at hwritten

end Written

end Lexical

namespace Text

/-- A byte is read as one character. -/
theorem codes_byte (b : UInt8) : ∃ c, codes [b] = [c] := by
  have hpos := decodeFirst_width_pos b []
  rw [codes, glyphs_eq_cons (List.cons_ne_nil b []), List.drop_eq_nil_of_le hpos]
  exact ⟨_, rfl⟩

/-- What spells a character is read as one. -/
theorem Glyph.Spelled.codes_bytes {g : Glyph} (h : g.Spelled) : ∃ c, codes g.bytes = [c] := by
  cases h with
  | ascii _ => exact codes_byte _
  | stray _ => exact codes_byte _
  | encoded _ =>
    obtain ⟨c, hc, -⟩ := codes_encode _
    exact ⟨c, hc⟩

end Text

namespace Lexical

/-- A piece on its own spells one character. -/
theorem Piece.Fits.codes_text {quote : Char} {p : Piece} (h : p.Fits quote) : ∃ c,
    p.text.codes = [c] := by
  cases h with
  | plain spelled _ => exact spelled.codes_bytes
  | short hshort =>
    rw [Piece.text, hshort]
    exact Text.codes_byte _
  | code _ _ _ =>
    obtain ⟨c, hc, -⟩ := Text.codes_encode _
    exact ⟨c, hc⟩

theorem decode_singleton (p : Piece) : decode false [p] = p.text := List.append_nil _

end Lexical

namespace Build

open Lexical (Kind Lexer Token)

theorem inside_quoted (quote : UInt8) (body : Text) :
    inside (quote :: (body ++ [quote])) = body := by
  rw [inside, List.drop_one, List.tail_cons, List.dropLast_concat]

/-- Every token in quotes decodes, that of a character to one character, and is a constant. -/
theorem quoted_constant (o : Options) {text : Text} {t : Token}
    (ht : t ∈ ((Lexer.ofOptions o.lexical).tokenize text).1) :
    (t.kind = .string → t.image = 0x22 :: (inside t.image ++ [0x22]) ∧
      ∃ s, Lexical.unescape (inside t.image) = .ok s ∧
        literal o t = .ok (.constant .string (.string s) none)) ∧
    (t.kind = .char → t.image = 0x27 :: (inside t.image ++ [0x27]) ∧
      ∃ s c, Lexical.unescape (inside t.image) = .ok s ∧ s.codes = [c] ∧
        literal o t = .ok (.constant .char (.char c) none)) := by
  refine ⟨fun hk => ?_, fun hk => ?_⟩
  · obtain ⟨ps, hps, himage⟩ := Lexical.string_pieces ht hk
    have hunescape := Lexical.unescape_body hps
    have hinside : inside t.image = Lexical.body ps := himage ▸ inside_quoted _ _
    rw [← hinside] at hunescape himage
    refine ⟨himage, _, hunescape, ?_⟩
    rw [literal, hk]
    dsimp only
    rw [hunescape]
    rfl
  · obtain ⟨p, hp, himage⟩ := Lexical.char_piece ht hk
    have hunescape := Lexical.unescape_body hp
    have hinside : inside t.image = Lexical.body [p] := himage ▸ inside_quoted _ _
    rw [← hinside] at hunescape himage
    rw [Lexical.decode_singleton] at hunescape
    obtain ⟨c, hc⟩ := (hp p List.mem_cons_self).codes_text
    refine ⟨himage, _, c, hunescape, hc, ?_⟩
    rw [literal, hk]
    dsimp only
    rw [hunescape, Except.map, hc]
    rfl

/-- A string of a surrogate pair and a line feed as a character. -/
theorem quoted_constant_sum :
    ∃ t t', ((Lexer.ofOptions ({} : Options).lexical).tokenize
      (Text.ofString "\"\\uD83D\\uDE00\" + '\\n'")).1 =
        [t, ⟨.plus, Text.ofString "+", ⟨15, 1, 16⟩⟩, t'] ∧
      literal {} t = .ok (.constant .string (.string (Text.ofString "😀")) none) ∧
      literal {} t' = .ok (.constant .char (.char 0x0A) none) := by
  have htokens : ((Lexer.ofOptions ({} : Options).lexical).tokenize
      (Text.ofString "\"\\uD83D\\uDE00\" + '\\n'")).1 =
        [⟨.string, Text.ofString "\"\\uD83D\\uDE00\"", {}⟩, ⟨.plus, Text.ofString "+", ⟨15, 1, 16⟩⟩,
          ⟨.char, Text.ofString "'\\n'", ⟨17, 1, 18⟩⟩] := by
    rw [Lexical.tokenize_standing]
    decide +kernel
  refine ⟨_, _, htokens, ?_, ?_⟩
  · obtain ⟨-, s, hs, hliteral⟩ := (quoted_constant {} (htokens ▸ List.mem_cons_self)).1 rfl
    have hvalue : Lexical.unescape (inside (Text.ofString "\"\\uD83D\\uDE00\"")) =
        .ok (Text.ofString "😀") := by
      decide +kernel
    cases hs.symm.trans hvalue
    exact hliteral
  · obtain ⟨-, s, c, hs, hc, hliteral⟩ := (quoted_constant {} (htokens ▸
      List.mem_cons_of_mem _ (List.mem_cons_of_mem _ List.mem_cons_self))).2 rfl
    have hvalue : Lexical.unescape (inside (Text.ofString "'\\n'")) = .ok [0x0A] := by
      decide +kernel
    cases hs.symm.trans hvalue
    cases hc
    exact hliteral

end Build

end Formulary
