import Formulary.Proofs.Lexical.Bodies
import Formulary.Proofs.Lexical.Pruned

/-!
# The letter of unicode escapes

The letter of an escape of digits may be small or capital. What a body spells depends on it in one
place only: the second half of a surrogate pair is known by the small letter alone. So the letters
of a body can be changed without changing its text exactly where all second halves of pairs keep
theirs (`unescape_recased`).
-/

namespace Formulary

namespace Lexical

open Piece

inductive Recased : Piece → Piece → Prop
  | same (p : Piece) : Recased p p
  | letter {l : UInt8} (l' : UInt8) {ds : Text} (h : l' = 0x75 ∨ l' = 0x55) :
      Recased (.code l ds) (.code l' ds)

/-- Two neighbours and what has become of them: if they are a surrogate pair, the second is what it
was. -/
def KeepsPair (x y : Piece × Piece) : Prop := (x.1.joined? y.1).isSome → y.2 = y.1

section Pairs

variable {p q : Piece} {c : Nat}

theorem joined?_eq_some (h : p.joined? q = some c) :
    ∃ l ds l' ds', p = .code l ds ∧ q = .code l' ds' ∧ pair? (codeOf ds) (codeOf ds') = some c := by
  cases p with
  | code l ds =>
    cases q with
    | code l' ds' => exact ⟨l, ds, l', ds', rfl, rfl, h⟩
    | _ => cases h
  | _ => cases h

/-- The second half of a pair spells its own text where it is not passed with the first. -/
theorem joined?_second (h : p.joined? q = some c) (r : Piece) : q.joined? r = none := by
  obtain ⟨l, ds, l', ds', rfl, rfl, hpair⟩ := joined?_eq_some h
  cases r with
  | code _ _ => exact pair?_eq_none (.inr (pair?_eq_some hpair).2.1.1) _
  | _ => rfl

/-- A pair spells something else than its first half does. -/
theorem append_text_ne (h : p.joined? q = some c) (t u : Text) : Text.encode c ++
    t ≠ p.text ++ u := by
  obtain ⟨l, ds, l', ds', rfl, rfl, hpair⟩ := joined?_eq_some h
  obtain ⟨hhigh, -, hge, hlt⟩ := pair?_eq_some hpair
  have hscalar : Text.isScalar (codeOf ds) = false := by
    simp only [Text.isScalar, Bool.or_eq_false_iff, Bool.and_eq_false_iff, decide_eq_false_iff_not]
    omega
  intro heq
  have hfirst : (Text.encode c ++ t).head? = some (0xF0 + c / 262144).toUInt8 := by
    have hscalar : Text.isScalar c = true := by
      simp only [Text.isScalar, Bool.or_eq_true, Bool.and_eq_true, decide_eq_true_eq]
      omega
    rw [Text.encode, if_neg (by omega), if_neg (by omega), hscalar, if_neg (by decide),
      if_neg (by omega)]
    rfl
  have hother : (Piece.text (.code l ds) ++ u).head? = some 0xEF := by
    rw [Piece.text, Text.encode_of_not_scalar hscalar]
    rfl
  rw [heq, hother] at hfirst
  have hnat := congrArg UInt8.toNat (Option.some.inj hfirst)
  rw [Text.toNat_toUInt8 (by omega)] at hnat
  simp at hnat
  omega

/-- A piece before one that is no second half of a pair with it. -/
theorem decode_apart (h : q.isSmall = true → p.joined? q = none) (ps : List Piece) :
    decode false (p :: q :: ps) = p.text ++ decode false (q :: ps) := by
  rw [decode, List.head?_cons]
  cases hq : q.isSmall with
  | true => rw [Option.filter_some_pos hq, Option.bind_some, h hq]
  | false => rw [Option.filter_some_neg (by simp [hq])]; rfl

end Pairs

section Recased

variable {quote : Char} {p q p' q' : Piece} {ps qs : List Piece}

theorem Recased.text (h : Recased p p') : p'.text = p.text := by
  cases h <;> rfl

theorem Recased.unit? (h : Recased p p') : p'.unit? = p.unit? := by
  cases h <;> rfl

theorem Recased.joined? (hp : Recased p p') (hq : Recased q q') : p'.joined? q' = p.joined? q := by
  rw [Piece.joined?, Piece.joined?, hp.unit?, hq.unit?]

/-- The letter of a piece that fits is what it was or the other one. -/
theorem Recased.eq_iff (h : Recased p p') (hp : p.Fits quote) : p' = p ↔
    p'.isSmall = p.isSmall := by
  refine ⟨congrArg isSmall, fun hsmall => ?_⟩
  cases h with
  | same => rfl
  | letter l' hl' =>
    cases hp with
    | code hl _ _ =>
      rcases hl with rfl | rfl <;> rcases hl' with rfl | rfl
      · rfl
      · cases hsmall
      · cases hsmall
      · rfl

/-- Two pieces before the same text: what they spell is the same if they are a pair in both, or in
neither. -/
theorem decode_recased_cons (hp : Recased p p') (hq : Recased q q') (hfits : q.Fits quote) {c : Nat}
    (hjoined : p.joined? q = some c) (ps qs : List Piece) :
    decode false (p' :: q' :: qs) = decode false (p :: q :: ps) ↔ q' = q ∧
      decode false qs = decode false ps := by
  have hsecond : ∀ r, q.joined? r = none := joined?_second hjoined
  have hsecond' : ∀ r, q'.joined? r = none := by
    intro r
    rw [hq.joined? (.same r), hsecond]
  have hjoined' : p'.joined? q' = some c := (hp.joined? hq).trans hjoined
  have hapart : ∀ (hsmall : q.isSmall = false) ps, decode false (p :: q :: ps) = p.text ++
      (q.text ++ decode false ps) := by
    intro hsmall ps
    rw [decode_apart (by simp [hsmall]), decode_alone hsecond]
  have hapart' : ∀ (hsmall : q'.isSmall = false) qs,
      decode false (p' :: q' :: qs) = p.text ++ (q.text ++ decode false qs) := by
    intro hsmall qs
    rw [decode_apart (by simp [hsmall]), decode_alone hsecond', hp.text, hq.text]
  rw [hq.eq_iff hfits]
  cases hsmall : q.isSmall with
  | true =>
    cases hsmall' : q'.isSmall with
    | true => simp [decode_joined hsmall hjoined, decode_joined hsmall' hjoined']
    | false =>
      rw [decode_joined hsmall hjoined, hapart' hsmall']
      exact iff_of_false (append_text_ne hjoined _ _).symm nofun
  | false =>
    cases hsmall' : q'.isSmall with
    | true =>
      rw [decode_joined hsmall' hjoined', hapart hsmall]
      exact iff_of_false (append_text_ne hjoined _ _) nofun
    | false => simp [hapart hsmall, hapart' hsmall']

/-- Pieces with other letters spell the same text exactly if all second halves of pairs keep their
letter. -/
theorem decode_recased (h : List.Forall₂ Recased ps qs) (hps : ∀ p ∈ ps, p.Fits quote) :
    decode false qs = decode false ps ↔ (ps.zip qs).IsChain KeepsPair := by
  induction h with
  | nil => exact iff_of_true rfl .nil
  | @cons p p' ps qs hp h ih =>
    obtain ⟨-, hps⟩ := List.forall_mem_cons.1 hps
    have ih := ih hps
    cases h with
    | nil =>
      exact iff_of_true (by rw [decode, decode]; exact congrArg (· ++ _) hp.text) (.singleton _)
    | @cons q q' ps qs hq h =>
      rw [List.zip_cons_cons, List.zip_cons_cons, List.isChain_cons_cons]
      rw [List.zip_cons_cons] at ih
      cases hjoined : p.joined? q with
      | none =>
        have hkeeps : KeepsPair (p, p') (q, q') := by simp [KeepsPair, hjoined]
        rw [decode_apart (fun _ => hjoined), decode_apart (fun _ =>
          (hp.joined? hq).trans hjoined), hp.text,
          List.append_cancel_left_eq, ih]
        exact (and_iff_right hkeeps).symm
      | some c =>
        have hkeeps : KeepsPair (p, p') (q, q') ↔ q' = q := by simp [KeepsPair, hjoined]
        have hsecond : ∀ r, q.joined? r = none := joined?_second hjoined
        have hsecond' : ∀ r, q'.joined? r = none := fun r =>
          (hq.joined? (.same r)).trans (hsecond r)
        rw [decode_alone hsecond, decode_alone hsecond', hq.text, List.append_cancel_left_eq] at ih
        rw [decode_recased_cons hp hq (hps q List.mem_cons_self) hjoined, hkeeps, ih]

theorem Recased.fits (h : Recased p p') (hp : p.Fits quote) : p'.Fits quote := by
  cases h with
  | same => exact hp
  | letter l' hl' =>
    cases hp with
    | code _ length digits => exact .code hl' length digits

theorem fits_recased (h : List.Forall₂ Recased ps qs) (hps : ∀ p ∈ ps, p.Fits quote) : ∀ q ∈ qs,
    q.Fits quote := by
  induction h with
  | nil => exact nofun
  | cons hp _ ih =>
    obtain ⟨hfits, hps⟩ := List.forall_mem_cons.1 hps
    exact List.forall_mem_cons.2 ⟨hp.fits hfits, ih hps⟩

end Recased

/-- A token in quotes has a body of pieces; and whatever letters the escapes of digits in it are
given, its text is what it was exactly if all second halves of surrogate pairs keep their letter. -/
theorem unescape_recased {o : Options} {text : Text} {t : Token}
    (ht : t ∈ ((Lexer.ofOptions o).tokenize text).1) (hk : t.kind = .string ∨ t.kind = .char) :
    (∃ quote ps, Quoted quote ps t.image) ∧
      ∀ quote ps, Quoted quote ps t.image → ∀ qs, List.Forall₂ Recased ps qs →
        (unescape (body qs) = unescape (body ps) ↔ (ps.zip qs).IsChain KeepsPair) := by
  refine ⟨?_, fun quote ps hps qs h => ?_⟩
  · rcases hk with hk | hk
    · exact ⟨_, string_pieces ht hk⟩
    · obtain ⟨p, hp⟩ := char_piece ht hk
      exact ⟨_, [p], hp⟩
  · rw [unescape_body hps.fits, unescape_body (fits_recased h hps.fits), Except.ok.injEq]
    exact decode_recased h hps.fits

/-- An accented letter and a surrogate pair, all with small letters. -/
def smallBody : List Piece :=
  [.code 0x75 (Text.ofString "00E9"), .code 0x75 (Text.ofString "D83D"),
    .code 0x75 (Text.ofString "DE00")]

/-- The same with capital letters but for the second half of the pair. -/
def capitalBody : List Piece :=
  [.code 0x55 (Text.ofString "00E9"), .code 0x55 (Text.ofString "D83D"),
    .code 0x75 (Text.ofString "DE00")]

theorem unescape_recased_first :
    ⟨.string, Text.ofString "\"\\u00E9\\uD83D\\uDE00\"", {}⟩ ∈
        ((Lexer.ofOptions {}).tokenize (Text.ofString "\"\\u00E9\\uD83D\\uDE00\"")).1 ∧
      Quoted '"' smallBody (Text.ofString "\"\\u00E9\\uD83D\\uDE00\"") ∧
      List.Forall₂ Recased smallBody capitalBody ∧
        unescape (body capitalBody) = unescape (body smallBody) := by
  have ht : ⟨.string, Text.ofString "\"\\u00E9\\uD83D\\uDE00\"", {}⟩ ∈
      ((Lexer.ofOptions {}).tokenize (Text.ofString "\"\\u00E9\\uD83D\\uDE00\"")).1 := by
    rw [tokenize_standing]
    decide +kernel
  have hquoted : Quoted '"' smallBody (Text.ofString "\"\\u00E9\\uD83D\\uDE00\"") := by
    refine ⟨?_, by decide⟩
    simp only [smallBody, List.forall_mem_cons, List.not_mem_nil, false_implies,
      implies_true, and_true]
    exact ⟨.code (.inl rfl) rfl (List.all_eq_true.1 rfl),
      .code (.inl rfl) rfl (List.all_eq_true.1 rfl),
      .code (.inl rfl) rfl (List.all_eq_true.1 rfl)⟩
  have hrecased : List.Forall₂ Recased smallBody capitalBody :=
    .cons (.letter 0x55 (.inr rfl)) (.cons (.letter 0x55 (.inr rfl)) (.cons (.same _) .nil))
  have hkeeps : (smallBody.zip capitalBody).IsChain KeepsPair := by
    refine .cons_cons (fun h => ?_) (.cons_cons (fun _ => rfl) (.singleton _))
    exact absurd h (by decide)
  exact ⟨ht, hquoted, hrecased,
    ((unescape_recased ht (.inl rfl)).2 _ _ hquoted _ hrecased).2 hkeeps⟩

/-- The capital letter at the second half takes a pair apart. -/
theorem unescape_recased_second :
    (Lexer.ofOptions {}).tokenize (Text.ofString "\"\\uD83D\\uDE00\"") =
      ([⟨.string, Text.ofString "\"\\uD83D\\uDE00\"", {}⟩], []) ∧
    (Lexer.ofOptions {}).tokenize (Text.ofString "\"\\uD83D\\UDE00\"") =
      ([⟨.string, Text.ofString "\"\\uD83D\\UDE00\"", {}⟩], []) ∧
    unescape (Text.ofString "\\uD83D\\uDE00") = .ok (Text.ofString "😀") ∧
    unescape (Text.ofString "\\uD83D\\UDE00") = .ok (Text.encode 0xFFFD ++ Text.encode 0xFFFD) := by
  refine ⟨?_, ?_, by decide +kernel, by decide +kernel⟩
  · rw [tokenize_standing]
    decide +kernel
  · rw [tokenize_standing]
    decide +kernel

end Lexical

end Formulary
