import Formulary.Proofs.Build.Signed
import Formulary.Proofs.Lexical.Lone
import Formulary.Proofs.Session.Negation

/-!
# Integers as texts

The decimal digits of an integer, behind a minus sign if it is negative, have the integer as their
value, and so have its hexadecimal digits; an integer that no type holds is refused.
-/

namespace Formulary

open Build (Numbered Overflows numeralElement)
open Lexical (AllHexDigits Kind Lexer Place Token Written integerSuffixes)
open Machine Machine.Lines

namespace Build

section Fitting

/-- The types of integers that a suffix allows; the first that holds a number is its type. -/
def suffixKinds : List Char → List IntKind
  | [] => [.int, .uint, .long, .ulong]
  | ['u'] => [.uint, .ulong]
  | ['l'] => [.long, .ulong]
  | _ => [.ulong]

/-- The types of integers that a number without a suffix can have. -/
def kindsFor (x : Int) : List IntKind := if 0 ≤ x then suffixKinds [] else [.int, .long]

theorem firstFitting_eq_some {kinds : List IntKind} {x : Int} {v : Value}
    (h : firstFitting kinds x = some v) :
    ∃ k, kinds.find? (·.holds x) = some k ∧ v = .int k x := by
  obtain ⟨k, hk, rfl⟩ := Option.map_eq_some_iff.1 h
  exact ⟨k, hk, rfl⟩

theorem isSome_firstFitting (kinds : List IntKind) (x : Int) :
    (firstFitting kinds x).isSome = true ↔ ∃ k ∈ kinds, k.holds x = true := by
  rw [firstFitting, Option.isSome_map, List.find?_isSome]

theorem holds_ulong (n : Nat) : IntKind.ulong.holds n = true ↔ n < 2 ^ 64 := by
  simp only [IntKind.holds_iff, IntKind.low, IntKind.high, IntKind.bits, IntKind.unsigned,
    if_true, Nat.pow_eq]
  omega

/-- Every suffix allows the type of the greatest numbers. -/
theorem firstFitting_suffixKinds {suffix : List Char} (h : suffix ∈ integerSuffixes) (n : Nat) :
    (firstFitting (suffixKinds suffix) n).isSome = true ↔ n < 2 ^ 64 := by
  have hkinds : ∀ s ∈ integerSuffixes, IntKind.ulong ∈ suffixKinds s ∧ ∀ k ∈ suffixKinds s,
      k.high ≤ IntKind.ulong.high := by
    decide
  obtain ⟨hmem, hhigh⟩ := hkinds suffix h
  rw [isSome_firstFitting, ← holds_ulong]
  refine ⟨fun ⟨k, hk, hholds⟩ => ?_, fun hholds => ⟨.ulong, hmem, hholds⟩⟩
  rw [IntKind.holds_iff] at hholds ⊢
  exact ⟨Int.natCast_nonneg n, hholds.2.trans (hhigh k hk)⟩

theorem firstFitting_kindsFor (x : Int) : (firstFitting (kindsFor x) x).isSome = true ↔
    -2 ^ 63 ≤ x ∧ x < 2 ^ 64 := by
  rw [kindsFor]
  split
  · rename_i hpos
    obtain ⟨n, rfl⟩ := Int.eq_ofNat_of_zero_le hpos
    rw [firstFitting_suffixKinds (by decide)]
    omega
  · rename_i hneg
    have hlong : IntKind.long.low = -2 ^ 63 ∧ IntKind.int.low = -2 ^ 31 := by decide
    have hlong' : IntKind.long.high = 2 ^ 63 - 1 ∧ IntKind.int.high = 2 ^ 31 - 1 := by decide
    rw [isSome_firstFitting]
    simp only [List.mem_cons, List.not_mem_nil, or_false, exists_eq_or_imp, exists_eq_left,
      IntKind.holds_iff, hlong, hlong']
    omega

theorem integerValue?_suffix {suffix : List Char} (h : suffix ∈ integerSuffixes) (n : Nat) :
    integerValue? false false n (String.ofList suffix) = firstFitting (suffixKinds suffix) n := by
  have hfits := firstFitting_suffixKinds h n
  rw [← holds_ulong] at hfits
  unfold integerValue?
  cases hholds : IntKind.ulong.holds n with
  | false =>
    rw [hholds] at hfits
    exact (Option.not_isSome_iff_eq_none.1 (mt hfits.1 Bool.false_ne_true)).symm
  | true =>
    simp only [integerSuffixes, List.mem_cons, List.not_mem_nil, or_false] at h
    rcases h with rfl | rfl | rfl | rfl | rfl <;> rfl

theorem integerValue?_natural (n : Nat) : integerValue? false false n "" =
    firstFitting (kindsFor n) n := by
  have hnone : [] ∈ integerSuffixes := List.mem_cons_self
  rw [kindsFor, if_pos (Int.natCast_nonneg n)]
  exact integerValue?_suffix hnone n

/-- The digits of a negative number are read without its sign first, and then with it. -/
theorem integerValue?_negative {n : Nat} (hn : 0 < n) :
    ((integerValue? false false n "").bind fun _ => integerValue? false true n "") =
      firstFitting (kindsFor (-n)) (-n) := by
  have hnone : [] ∈ integerSuffixes := List.mem_cons_self
  have hfits := firstFitting_kindsFor (-n)
  have hread := integerValue?_suffix hnone n
  have hplain := firstFitting_suffixKinds hnone n
  have hkinds : kindsFor (-n) = [.int, .long] := if_neg (by omega)
  by_cases hlt : n < 2 ^ 64
  · obtain ⟨v, hv⟩ := Option.isSome_iff_exists.1 (hplain.2 hlt)
    have hv : integerValue? false false n "" = some v := hread.trans hv
    rw [hv, Option.bind_some, hkinds]
    unfold integerValue?
    rw [(holds_ulong n).2 hlt]
    rfl
  · have hnone : integerValue? false false n "" = none :=
      hread.trans (Option.not_isSome_iff_eq_none.1 (mt hplain.1 hlt))
    rw [hnone, Option.bind_none, eq_comm, ← Option.not_isSome_iff_eq_none, hfits]
    omega

end Fitting

end Build

section Digits

theorem lt_of_toDigits {n : Nat} : ∀ c ∈ Nat.toDigits 10 n, c.toNat < 0x80 :=
  fun c hc => (Build.digit_plain (Number.allDigits_toDigits n c hc)).1

theorem ofString_natural (n : Nat) : Text.ofString (toString (n : Int)) =
    Text.ofByteChars (Nat.toDigits 10 n) :=
  Text.ofString_ofList lt_of_toDigits

theorem ofString_negative {n : Nat} (hn : 0 < n) :
    Text.ofString (toString (-(n : Int))) = 0x2D :: Text.ofByteChars (Nat.toDigits 10 n) := by
  obtain ⟨m, rfl⟩ := Nat.exists_eq_add_of_lt hn
  rw [Nat.zero_add]
  have hsign : toString (-((m + 1 : Nat) : Int)) = "-" ++
    String.ofList (Nat.toDigits 10 (m + 1)) := rfl
  rw [hsign, Text.ofString_append, Text.ofString_ofList lt_of_toDigits]
  rfl

/-- Hexadecimal digits of a number, in small or capital letters, behind any number of zeros. -/
def Hexadecimal (n : Nat) (digits : List Char) : Prop :=
  ∃ zeros, digits.map Char.toLower = List.replicate zeros '0' ++ Nat.toDigits 16 n

variable {n : Nat} {digits : List Char}

theorem Hexadecimal.ne_nil (h : Hexadecimal n digits) : digits ≠ [] := by
  obtain ⟨zeros, h⟩ := h
  rintro rfl
  exact Nat.toDigits_ne_nil (List.append_eq_nil_iff.1 h.symm).2

theorem Hexadecimal.allHexDigits (h : Hexadecimal n digits) : AllHexDigits digits := by
  obtain ⟨zeros, h⟩ := h
  intro c hc
  refine Build.isHexDigit_of_toLower ?_
  have hmem : c.toLower ∈ List.replicate zeros '0' ++ Nat.toDigits 16 n :=
    h ▸ List.mem_map_of_mem hc
  rcases List.mem_append.1 hmem with h | h
  · rw [List.eq_of_mem_replicate h]
    decide
  · exact Build.isHexDigit_toDigits h

theorem Hexadecimal.value (h : Hexadecimal n digits) : Build.hexValue digits = n := by
  obtain ⟨zeros, h⟩ := h
  rw [← Build.hexValue_toLower, h, Build.hexValue_zeros, Build.hexValue_toDigits]

end Digits

structure Lone (lexical : Lexical.Options) (text : Text) (k : Kind) (n : Nat)
    (suffix : String) : Prop where
  kind : k = .integer ∨ k = .hex
  digit : ∃ g ∈ text.glyphs.head?, Text.isAsciiDigit g.code = true
  scan : Lexical.longestScan (Lexical.scanners lexical) text.glyphs = some (k, text.glyphs.length)
  read : Build.readInteger (k == .hex) text = (n, suffix)

namespace Lone

variable {lexical : Lexical.Options} {text : Text} {k : Kind} {n : Nat} {suffix : String}

/-- The digits of a number. -/
theorem integer (lexical : Lexical.Options) (n : Nat) :
    Lone lexical (Text.ofByteChars (Nat.toDigits 10 n)) .integer n "" := by
  have hdigits := Number.allDigits_toDigits n
  have hne : Nat.toDigits 10 n ≠ [] := Nat.toDigits_ne_nil
  have hglyphs := Text.glyphs_ofByteChars (lt_of_toDigits (n := n))
  have hnone : [].map Char.toLower ∈ integerSuffixes := List.mem_cons_self
  have hread := Build.readInteger_written false (fun c hc => Build.digit_plain (hdigits c hc)) hnone
  rw [List.append_nil] at hread
  refine ⟨.inl rfl, ?_, ?_, hread.trans (congrArg (·, _) (Number.digitsValue_toDigits n))⟩
  · obtain ⟨c, cs, hcons⟩ := List.exists_cons_of_ne_nil hne
    rw [hcons] at hdigits hglyphs ⊢
    rw [hglyphs]
    exact ⟨_, rfl, Lexical.isAsciiDigit_of_isDigit (hdigits c List.mem_cons_self)⟩
  · rw [hglyphs]
    exact Lexical.longestScan_integer hdigits hne

/-- Hexadecimal digits of a number behind their prefix, with a suffix or without one. -/
theorem hex (lexical : Lexical.Options) {letter : Char} {digits suffix : List Char}
    (hletter : letter = 'x' ∨ letter = 'X')
    (hdigits : Hexadecimal n digits) (hsuffix : suffix.map Char.toLower ∈ integerSuffixes) :
    Lone lexical (Text.ofByteChars ('0' :: letter :: (digits ++ suffix))) .hex n
      (String.ofList (suffix.map Char.toLower)) := by
  have hhex := hdigits.allHexDigits
  have hglyphs := Text.glyphs_ofByteChars (Build.hex_ascii hletter hhex hsuffix)
  have hread := Build.readInteger_written true (Build.hex_front hletter hhex) hsuffix
  refine ⟨.inr rfl, ?_, ?_, hread.trans (congrArg (·, _) hdigits.value)⟩
  · rw [hglyphs]
    exact ⟨_, rfl, rfl⟩
  · rw [hglyphs]
    exact Lexical.longestScan_hex hletter hhex hdigits.ne_nil hsuffix

variable (h : Lone lexical text k n suffix)

include h

theorem glyphs_ne_nil : text.glyphs ≠ [] := by
  obtain ⟨g, hg, -⟩ := h.digit
  rintro heq
  rw [heq] at hg
  cases hg

theorem head_digit : ∀ g ∈ text.glyphs.head?, Text.isAsciiDigit g.code = true := by
  obtain ⟨g, hg, hdigit⟩ := h.digit
  intro g' hg'
  cases hg.symm.trans hg'
  exact hdigit

/-- The text ends behind where it starts. -/
theorem offset_lt (p : Place) : p.offset < (p.afterAll text.glyphs).offset := by
  have hne : text ≠ [] := by
    rintro rfl
    exact h.glyphs_ne_nil rfl
  rw [Place.offset_afterAll, Text.flatMap_bytes_glyphs]
  exact Nat.lt_add_of_pos_right (List.length_pos_of_ne_nil hne)

variable {c : Context} {host : Host} {store : Store} {o : Options}

/-- A numeral is read as the types that hold its number allow. -/
theorem numbered (negated : Bool) (hplain : o.integersAsDoubles = false) :
    Numbered k text (Build.integerValue? false negated n suffix)
      (Build.number o k text negated) := by
  have hreal : k ≠ .real := by rcases h.kind with rfl | rfl <;> exact nofun
  rw [Build.number_integer hreal h.read, hplain]
  exact Build.numbered_held negated

theorem literal_eq (o : Options) (place : Place) :
    Build.literal o ⟨k, text, place⟩ = Build.number o k text false := by
  rcases h.kind with rfl | rfl <;> rfl

variable (hlexer : c.lexer = .ofOptions lexical) (hvalid : lexical.fault? = none)
  (hdepth : 15 ≤ lexical.depth)
  (hplain : o.integersAsDoubles = false)

include hlexer hvalid hdepth hplain

/-- The element of the numeral alone. -/
theorem root : Numbered k text (Build.integerValue? false false n suffix)
    (c.root host store o text) := by
  have hread := Lexical.read_numeral hvalid h.glyphs_ne_nil h.head_digit h.scan
  have hparse := Context.parse_eq_ok.2 (hlexer ▸
    Build.parse_numeral hdepth hread rfl h.kind (h.offset_lt {}).ne')
  rw [Context.root, hparse]
  refine Build.element_numeral ?_
  rw [h.literal_eq]
  exact h.numbered false hplain

/-- The element of the numeral behind a minus sign. -/
theorem root_signed (hpoint : lexical.decimalPoint = 0x2D → lexical.requireDigits = true) :
    Numbered k text
      ((Build.integerValue? false false n suffix).bind fun _ =>
        Build.integerValue? false true n suffix)
      (c.root host store o (0x2D :: text)) := by
  have hread := Lexical.read_signed hvalid hpoint h.glyphs_ne_nil h.head_digit h.scan
  have hoffset := h.offset_lt ⟨1, 1, 2⟩
  have hoffset' := Nat.lt_trans Nat.zero_lt_one hoffset
  have hparse := Context.parse_eq_ok.2
    (hlexer ▸ Build.parse_signed hdepth hread rfl rfl h.kind hoffset.ne' hoffset'.ne')
  rw [Context.root, hparse]
  refine Build.element_signed rfl ?_ (h.numbered true hplain)
  rw [h.literal_eq]
  exact h.numbered false hplain

end Lone

section Compiling

variable {c : Context} {host : Host} {store : Store} {o : Options} {text image : Text} {k : Kind}
  {v : Value} {kind : IntKind}
  {x : Int}

/-- Without a declared type, the element of a text that has a type is its root. -/
theorem Context.element_of_root (hfree : o.resultType = none) {e : Element}
    (hnull : (e.type == .null) = false)
    (h : c.root host store o text = .ok e) : c.element host store o text = .ok e := by
  obtain ⟨tree, htree, hroot⟩ := bind_eq_ok.1 h
  have himplicit : (c.scope host store o).implicit e
    (o.resultType.getD (if e.type == .null then .object else e.type)) =
      .ok e := by
    rw [hfree, hnull]
    exact if_pos BEq.rfl
  unfold Context.element
  refine bind_eq_ok.2 ⟨tree, htree, bind_eq_ok.2 ⟨e, hroot, ?_⟩⟩
  simp only [himplicit]

theorem Context.element_of_root_error {f : Failure} (h : c.root host store o text = .error f) :
    c.element host store o text = .error f := by
  unfold Context.root at h
  unfold Context.element
  cases htree : c.parse text with
  | error g =>
    rw [htree] at h
    exact h
  | ok tree =>
    rw [htree] at h
    have h : Build.element (c.scope host store o) tree = .error f := h
    show (Build.element (c.scope host store o) tree >>= _) = _
    rw [h]
    rfl

/-- An integer constant is a program of one step, which no limit forbids. -/
theorem Context.compile_constant (hfree : o.resultType = none)
    (h : c.root host store o text = .ok (numeralElement k image (.int kind x))) :
    c.compile host store o text =
      .ok ⟨text, assembled ((numeralElement k image (.int kind x)).body 0), .int kind⟩ := by
  have hlimit : (assembled ((numeralElement k image (.int kind x)).body 0)).size ≤
      limitOf o.maxInstructions := by
    have hsize : (assembled ((numeralElement k image (.int kind x)).body 0)).size = 1 := rfl
    rw [hsize, limitOf]
    split
    · decide
    · omega
  have hprogram : (numeralElement k image (.int kind x)).program (limitOf o.maxInstructions) =
      .ok (assembled ((numeralElement k image (.int kind x)).body 0)) := by
    rw [Element.program_eq, if_pos hlimit]
  unfold Context.compile
  refine bind_eq_ok.2 ⟨_, Context.element_of_root hfree rfl h, ?_⟩
  simp only [hprogram]
  rfl

theorem Context.compile_overflows (h : Overflows (c.root host store o text)) :
    Overflows (c.compile host store o text) := by
  obtain ⟨e, herror, he⟩ := h
  refine ⟨e, ?_, he⟩
  rw [Context.compile, Context.element_of_root_error herror]
  rfl

namespace Workspace

variable {w : Workspace} {n : Nat} {f : Options → Options}

/-- A text compiles in a context to an expression that has a value. -/
def Yields (w : Workspace) (n : Nat) (f : Options → Options) (text : Text) (v : Value) : Prop :=
  ∃ i w', w.compile n f text = .ok (i, w') ∧ (w'.evaluate i).1 = .ok v

/-- A constant is the value of its text. -/
theorem yields_constant (hc : w.contexts[n]? = some c) (hfree : (f c.options).resultType = none)
    (h : c.root w.host w.store (f c.options) text = .ok (numeralElement k image (.int kind x))) :
    w.Yields n f text (.int kind x) := by
  have hcompiled := Context.compile_constant hfree h
  obtain ⟨i, w', hcompile⟩ : ∃ i w', w.compile n f text = .ok (i, w') := by
    rw [Workspace.compile, hc]
    exact ⟨_, _, bind_eq_ok.2 ⟨_, hcompiled, rfl⟩⟩
  obtain ⟨-, -, -, e, he, hsame⟩ := compile_keeps hc hcompile
  have hprogram := congrArg Compiled.program (Except.ok.inj (hsame.symm.trans hcompiled))
  refine ⟨i, w', hcompile, ?_⟩
  rw [evaluate_eq he, hprogram, Element.runProgram_assembled]
  rfl

theorem overflows_root (hc : w.contexts[n]? = some c)
    (h : Overflows (c.root w.host w.store (f c.options) text)) :
    Overflows (w.compile n f text) := by
  obtain ⟨e, herror, he⟩ := Context.compile_overflows h
  refine ⟨e, ?_, he⟩
  rw [Workspace.compile, hc]
  show (c.compile w.host w.store (f c.options) text >>= _) = _
  rw [herror]
  rfl

/-- A text of a number has it as its value with the first type that holds it, or is refused if no
type does. -/
theorem outcome_fitting (hc : w.contexts[n]? = some c) (hfree : (f c.options).resultType = none)
    {kinds : List IntKind}
    (h : Numbered k image (Build.firstFitting kinds x) (c.root w.host w.store (f c.options) text)) :
    ((Build.firstFitting kinds x).isSome = true →
        ∃ kind, kinds.find? (·.holds x) = some kind ∧ w.Yields n f text (.int kind x)) ∧
      (¬(Build.firstFitting kinds x).isSome = true → Overflows (w.compile n f text)) := by
  cases hfirst : Build.firstFitting kinds x with
  | none =>
    rw [hfirst] at h
    exact ⟨nofun, fun _ => overflows_root hc h⟩
  | some v =>
    obtain ⟨kind, hkind, rfl⟩ := Build.firstFitting_eq_some hfirst
    rw [hfirst] at h
    exact ⟨fun _ => ⟨kind, hkind, yields_constant hc hfree h⟩, fun hnone => absurd rfl hnone⟩

end Workspace

end Compiling

namespace Workspace

/-- The decimal digits of an integer, behind a minus sign if it is negative, have it as their value
with the first type that holds it, and the integers outside of the range of all types are refused.
So it is with hexadecimal digits, in small or capital letters, behind any zeros and with any
suffix. -/
theorem integers_valued {w : Workspace} {n : Nat} {c : Context} {f : Options → Options}
    {lexical : Lexical.Options}
    (hc : w.contexts[n]? = some c) (hlexer : c.lexer = .ofOptions lexical)
    (hvalid : lexical.fault? = none)
    (hdepth : 15 ≤ lexical.depth) (hplain : (f c.options).integersAsDoubles = false)
    (hfree : (f c.options).resultType = none) :
    (∀ x : Int, (x < 0 → lexical.decimalPoint = 0x2D → lexical.requireDigits = true) →
      (-2 ^ 63 ≤ x ∧ x < 2 ^ 64 → ∃ kind, (Build.kindsFor x).find? (·.holds x) = some kind ∧
        w.Yields n f (Text.ofString (toString x)) (.int kind x)) ∧
      (¬(-2 ^ 63 ≤ x ∧ x < 2 ^ 64) → Overflows (w.compile n f (Text.ofString (toString x))))) ∧
    ∀ (x : Nat) (letter : Char) (digits suffix : List Char), letter = 'x' ∨ letter = 'X' →
      Hexadecimal x digits →
      suffix.map Char.toLower ∈ integerSuffixes →
      (x < 2 ^ 64 → ∃ kind, (Build.suffixKinds (suffix.map Char.toLower)).find?
        (·.holds x) = some kind ∧
        w.Yields n f (Text.ofString (String.ofList ('0' :: letter :: (digits ++ suffix))))
          (.int kind x)) ∧
      (2 ^ 64 ≤ x →
        Overflows (w.compile n f (Text.ofString
          (String.ofList ('0' :: letter :: (digits ++ suffix)))))) := by
  constructor
  · intro x hpoint
    have hroot : ∃ k image, Numbered k image (Build.firstFitting (Build.kindsFor x) x)
        (c.root w.host w.store (f c.options) (Text.ofString (toString x))) := by
      by_cases hneg : x < 0
      · obtain ⟨m, hm, rfl⟩ : ∃ m : Nat, 0 < m ∧ x = -m := ⟨x.natAbs, by omega, by omega⟩
        rw [ofString_negative hm, ← Build.integerValue?_negative hm]
        exact ⟨_, _, (Lone.integer lexical m).root_signed hlexer hvalid hdepth hplain (hpoint hneg)⟩
      · obtain ⟨m, rfl⟩ := Int.eq_ofNat_of_zero_le (Int.not_lt.1 hneg)
        rw [ofString_natural, ← Build.integerValue?_natural]
        exact ⟨_, _, (Lone.integer lexical m).root hlexer hvalid hdepth hplain⟩
    obtain ⟨k, image, hroot⟩ := hroot
    have houtcome := outcome_fitting hc hfree hroot
    rwa [Build.firstFitting_kindsFor] at houtcome
  · intro x letter digits suffix hletter hdigits hsuffix
    have hlone : Numbered .hex _ _ (c.root w.host w.store (f c.options) _) :=
      (Lone.hex lexical hletter hdigits hsuffix).root hlexer hvalid hdepth hplain
    rw [Build.integerValue?_suffix hsuffix, ← Text.ofString_ofList
      (Build.hex_ascii hletter hdigits.allHexDigits hsuffix)] at hlone
    have houtcome := outcome_fitting hc hfree hlone
    rwa [Build.firstFitting_suffixKinds hsuffix, Nat.not_lt] at houtcome

/-- The least number of all, the first one beyond the greatest, and a small one with all that a
hexadecimal numeral may have. -/
theorem integers_valued_bounds :
    (create .bare (strict none)).Yields 0 id (Text.ofString "-9223372036854775808")
      (.int .long (-2 ^ 63)) ∧
      Overflows ((create .bare (strict none)).compile 0 id (Text.ofString "18446744073709551616")) ∧
      (create .bare (strict none)).Yields 0 id (Text.ofString "0X00fFuL") (.int .ulong 255) := by
  obtain ⟨hdecimal, hhex⟩ := integers_valued (w := create .bare (strict none)) (n := 0)
    (c := strict none) (f := id) rfl rfl rfl (by decide) rfl rfl
  refine ⟨?_, (hdecimal (2 ^ 64) nofun).2 (by decide), ?_⟩
  · obtain ⟨kind, hkind, hyields⟩ := (hdecimal (-2 ^ 63) fun _ => nofun).1 (by decide)
    cases hkind.symm.trans (show _ = some IntKind.long from by decide)
    exact hyields
  · have hdigits : Hexadecimal 255 "00fF".toList := ⟨2, by decide⟩
    obtain ⟨kind, hkind, hyields⟩ :=
      (hhex 255 'X' "00fF".toList "uL".toList (.inr rfl) hdigits (by decide)).1 (by decide)
    cases hkind.symm.trans (show _ = some IntKind.ulong from by decide)
    exact hyields

end Workspace

end Formulary
