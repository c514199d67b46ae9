import Formulary.Build.Literal
import Formulary.Proofs.Lexical.Lone
import Formulary.Proofs.Lexical.Pruned
import Formulary.Proofs.Value.Whole

/-!
# Time spans as they are written

A time span is read by cutting it at its points and colons. In what the lexer takes for one, these
stand in fixed places, so that every part is read as it was written (`readSpan_written`). The parts
have ranges of their own, but the days may be any number of 64 bits, and the total is kept modulo
2⁶⁴: a literal is in error for its parts alone, and stands for the time written if and only if that
fits (`timeSpan_read`).
-/

namespace Formulary

open Number (AllDigits digitValue digitsValue spanSign_of_head isDigit_sign toNat_digit)

namespace Number

variable {a b cs : List Char}

theorem digitsValue_eq (cs : List Char) : digitsValue cs = Nat.ofDigitChars 10 cs 0 := by
  simp only [digitsValue, Nat.ofDigitChars, Nat.mul_comm, digitValue]

/-- Zeros behind some digits. -/
theorem digitsValue_zeros (cs : List Char) (n : Nat) :
    digitsValue (cs ++ List.replicate n '0') = digitsValue cs * 10 ^ n := by
  rw [digitsValue_eq, Nat.ofDigitChars_append, Nat.ofDigitChars_replicate_zero,
    ← digitsValue_eq, Nat.mul_comm]

theorem digitValue_le {c : Char} (h : c.isDigit = true) : digitValue c ≤ 9 := by
  have hhigh := (toNat_digit h).2
  simp only [digitValue, show '0'.toNat = 48 from rfl]
  omega

/-- Digits stand for less than the power of ten with as many zeros. -/
theorem digitsValue_lt (h : AllDigits cs) : digitsValue cs < 10 ^ cs.length := by
  induction cs using List.reverseRecOn with
  | nil => decide
  | append_singleton cs c ih =>
    have hinit := ih fun x hx => h x (List.mem_append_left _ hx)
    have hlast := digitValue_le (h c (by simp))
    have hvalue : digitsValue (cs ++ [c]) = digitsValue cs * 10 + digitValue c := by
      simp [digitsValue]
    rw [hvalue, List.length_append, List.length_singleton, Nat.pow_succ]
    omega

end Number

open Number (digitsValue_zeros digitsValue_lt)

namespace Calendar

section Cuts

variable {mark : Char} {front rest cs : List Char}

theorem cutAt_mark (h : mark ∉ front) : cutAt mark (front ++ mark :: rest) =
    (front, some rest) := by
  have hfront : ∀ c ∈ front, (c != mark) = true := by
    intro c hc
    simpa using fun heq : c = mark => h (heq ▸ hc)
  have htake : (mark :: rest).takeWhile (· != mark) = [] := List.takeWhile_cons_of_neg (by simp)
  have hdrop : (mark :: rest).dropWhile (· != mark) = mark :: rest :=
    List.dropWhile_cons_of_neg (by simp)
  simp only [cutAt, List.dropWhile_append_of_pos hfront,
    List.takeWhile_append_of_pos hfront, htake, hdrop,
    List.append_nil]

theorem cutAt_nowhere (h : mark ∉ cs) : cutAt mark cs = (cs, none) := by
  have hnil : cs.dropWhile (· != mark) = [] := by
    rw [List.dropWhile_eq_nil_iff]
    intro c hc
    simpa using fun heq : c = mark => h (heq ▸ hc)
  rw [cutAt, hnil]

theorem splitAt_cons_of_ne {c : Char} {part : List Char} {parts : List (List Char)} (hc : c ≠ mark)
    (h : splitAt mark cs = part :: parts) : splitAt mark (c :: cs) = (c :: part) :: parts := by
  unfold splitAt at h ⊢
  rw [List.foldr_cons, if_neg (by simpa using hc), h]

theorem splitAt_mark (h : mark ∉ front) : splitAt mark (front ++ mark :: rest) =
    front :: splitAt mark rest := by
  induction front with
  | nil =>
    rw [List.nil_append]
    unfold splitAt
    rw [List.foldr_cons, if_pos (by simp)]
  | cons c front ih =>
    rw [List.mem_cons, not_or] at h
    exact splitAt_cons_of_ne (Ne.symm h.1) (ih h.2)

theorem splitAt_nowhere (h : mark ∉ cs) : splitAt mark cs = [cs] := by
  induction cs with
  | nil => rfl
  | cons c cs ih =>
    rw [List.mem_cons, not_or] at h
    exact splitAt_cons_of_ne (Ne.symm h.1) (ih h.2)

end Cuts

section Digits

variable {cs : List Char}

theorem not_isSpace {c : Char} (h : c.isDigit = true) : Text.isSpace c.toNat = false := by
  obtain ⟨hlow, hhigh⟩ := toNat_digit h
  simp only [Text.isSpace, Bool.or_eq_false_iff, Bool.and_eq_false_iff, decide_eq_false_iff_not,
    beq_eq_false_iff_ne]
  omega

/-- Digits are read as their number, if it has 64 bits. -/
theorem leadingInt?_digits (h : AllDigits cs) (hne : cs ≠ []) :
    leadingInt? cs = if IntKind.long.holds (digitsValue cs) then
      some (digitsValue cs : Int) else none := by
  have hdrop : cs.dropWhile (fun c => c != '\n' && Text.isSpace c.toNat) = cs := by
    obtain ⟨c, rest, rfl⟩ := List.exists_cons_of_ne_nil hne
    exact List.dropWhile_cons_of_neg (by simp [not_isSpace (h c List.mem_cons_self)])
  have hsign : Number.spanSign cs = (false, cs) := by
    refine spanSign_of_head fun c hc => ?_
    obtain ⟨hminus, hplus, -⟩ := isDigit_sign (h c (List.mem_of_mem_head? hc))
    exact ⟨hminus, hplus⟩
  have htake : cs.takeWhile Char.isDigit = cs := List.takeWhile_eq_self_iff.2 h
  have hempty : cs.isEmpty = false := List.isEmpty_eq_false_iff.2 hne
  simp only [leadingInt?, hdrop, hsign, htake, hempty, Bool.false_eq_true, if_false]
  rfl

theorem holds_digits (h : AllDigits cs) (hlength : cs.length ≤ 18) :
    IntKind.long.holds (digitsValue cs) = true := by
  have hlt := (digitsValue_lt h).trans_le (Nat.pow_le_pow_right (by decide) hlength)
  rw [IntKind.holds_iff]
  exact ⟨le_trans (by decide) (Int.natCast_nonneg _), le_trans (Int.ofNat_le.2 hlt.le) (by decide)⟩

/-- Two digits, as hours, minutes and seconds are written. -/
def TwoDigits (cs : List Char) : Prop := AllDigits cs ∧ cs.length = 2

instance : Decidable (TwoDigits cs) := inferInstanceAs (Decidable (AllDigits cs ∧ cs.length = 2))

theorem TwoDigits.ne_nil (h : TwoDigits cs) : cs ≠ [] := by
  rintro rfl
  cases h.2

/-- Two digits are read as their number, if it is in range. -/
theorem leadingUpTo?_digits (h : TwoDigits cs) (bound : Nat) :
    leadingUpTo? bound cs =
      if bound < digitsValue cs then none else some (digitsValue cs : Int) := by
  rw [leadingUpTo?, leadingInt?_digits h.1 h.ne_nil,
    if_pos (holds_digits h.1 (by rw [h.2]; decide)), Option.filter_some]
  by_cases hbound : bound < digitsValue cs
  · rw [if_neg (by simpa using hbound), if_pos hbound]
  · rw [if_pos (by simpa using hbound), if_neg hbound]

/-- A digit takes one byte. -/
theorem utf8ByteSize_digits (h : AllDigits cs) : (String.ofList cs).utf8ByteSize = cs.length := by
  induction cs with
  | nil => rfl
  | cons c cs ih =>
    have hsplit : String.ofList (c :: cs) = String.singleton c ++ String.ofList cs := by
      rw [← String.toList_inj]
      simp
    have hdigit := (toNat_digit (h c List.mem_cons_self)).2
    have hone : c.utf8Size = 1 := if_pos (UInt32.le_iff_toNat_le.2 (hdigit.trans (by decide)))
    rw [hsplit, String.utf8ByteSize_append, String.utf8ByteSize_singleton, hone,
      ih fun x hx => h x (List.mem_cons_of_mem c hx), List.length_cons, Nat.add_comm]

/-- The nanoseconds of a fraction of a second. -/
def fractionValue (cs : List Char) : Nat := digitsValue cs * 10 ^ (9 - cs.length)

theorem readFraction_digits (h : AllDigits cs) (hne : cs ≠ []) (hlength : cs.length ≤ 7) :
    readFraction cs = .ok (fractionValue cs : Int) := by
  have hdigits : AllDigits (cs ++ List.replicate (7 - cs.length) '0') := by
    refine h.append fun c hc => ?_
    rw [List.eq_of_mem_replicate hc]
    rfl
  have hheld := holds_digits hdigits (by simp; omega)
  have hwidth : (cs.length == 0 || decide (7 < cs.length)) = false := by
    have hpos := List.length_pos_iff.2 hne
    simp only [Bool.or_eq_false_iff, beq_eq_false_iff_ne, decide_eq_false_iff_not]
    omega
  have hread := leadingInt?_digits hdigits (by simp [hne])
  rw [if_pos hheld, digitsValue_zeros] at hread
  have hpower : 10 ^ (9 - cs.length) = 10 ^ (7 - cs.length) * 100 := by
    rw [show 9 - cs.length = 7 - cs.length + 2 by omega, Nat.pow_add]
  simp only [readFraction, utf8ByteSize_digits h, hwidth, Bool.false_eq_true, if_false, hread,
    fractionValue, hpower]
  push_cast
  rw [mul_assoc]

end Digits

structure WrittenSpan where
  days : Option (List Char)
  hours : List Char
  minutes : List Char
  seconds : Option (List Char × Option (List Char))
  deriving DecidableEq, Repr

def secondChars : List Char × Option (List Char) → List Char
  | (whole, none) => whole
  | (whole, some part) => whole ++ '.' :: part

structure ProperSeconds (s : List Char × Option (List Char)) : Prop where
  whole : TwoDigits s.1
  part : ∀ cs ∈ s.2, AllDigits cs ∧ cs ≠ [] ∧ cs.length ≤ 7

instance (s : List Char × Option (List Char)) : Decidable (ProperSeconds s) :=
  decidable_of_iff (TwoDigits s.1 ∧ ∀ cs ∈ s.2, AllDigits cs ∧ cs ≠ [] ∧ cs.length ≤ 7)
    ⟨fun h => ⟨h.1, h.2⟩, fun h => ⟨h.whole, h.part⟩⟩

namespace WrittenSpan

def clock (w : WrittenSpan) : List Char :=
  w.hours ++ ':' :: (w.minutes ++ w.seconds.elim [] fun s => ':' :: secondChars s)

def chars (w : WrittenSpan) : List Char := w.days.elim [] (· ++ ['.']) ++ w.clock

def image (w : WrittenSpan) : Text := Text.ofByteChars ('#' :: '#' :: (w.chars ++ ['#']))

structure Proper (w : WrittenSpan) : Prop where
  days : ∀ cs ∈ w.days, AllDigits cs ∧ cs ≠ []
  hours : TwoDigits w.hours
  minutes : TwoDigits w.minutes
  seconds : ∀ s ∈ w.seconds, ProperSeconds s

instance (w : WrittenSpan) : Decidable w.Proper :=
  decidable_of_iff ((∀ cs ∈ w.days, AllDigits cs ∧ cs ≠ []) ∧ TwoDigits w.hours ∧
    TwoDigits w.minutes ∧
      ∀ s ∈ w.seconds, ProperSeconds s)
    ⟨fun ⟨hdays, hhours, hminutes, hseconds⟩ => ⟨hdays, hhours, hminutes, hseconds⟩,
      fun h => ⟨h.days, h.hours, h.minutes, h.seconds⟩⟩

variable (w : WrittenSpan)

def dayCount : Nat := w.days.elim 0 digitsValue

def hourCount : Nat := digitsValue w.hours

def minuteCount : Nat := digitsValue w.minutes

def secondCount : Nat := w.seconds.elim 0 fun s => digitsValue s.1

def nanoCount : Nat := w.seconds.elim 0 fun s => s.2.elim 0 fractionValue

def total : Int :=
  (((w.dayCount * 24 + w.hourCount) * 60 + w.minuteCount) * 60 + w.secondCount) *
    1000000000 + w.nanoCount

/-- The first part that is out of its range: the days if they do not have 64 bits, and what a clock
does not show. -/
def fault? : Option SpanFault :=
  if IntKind.long.holds w.dayCount then
    if 23 < w.hourCount then some .hours
    else if 59 < w.minuteCount then some .minutes
    else if 59 < w.secondCount then some .seconds
    else none
  else some .days

end WrittenSpan

section Reading

variable {w : WrittenSpan}

theorem not_mem_digits {cs : List Char} (h : AllDigits cs) {c : Char}
    (hc : c.isDigit = false) : c ∉ cs :=
  fun hmem => absurd (h c hmem) (by simp [hc])

theorem readSeconds_written {s : List Char × Option (List Char)} (h : ProperSeconds s) :
    readSeconds (secondChars s) =
      if 59 < digitsValue s.1 then .error .seconds
      else .ok (digitsValue s.1, (s.2.elim 0 fractionValue : Nat)) := by
  obtain ⟨whole, part⟩ := s
  have hpoint : '.' ∉ whole := not_mem_digits h.whole.1 rfl
  have hwhole : leadingUpTo? 59 whole = if 59 < digitsValue whole then none
      else some (digitsValue whole : Int) :=
    leadingUpTo?_digits h.whole 59
  have hcut : cutAt '.' (secondChars (whole, part)) = (whole, part) := by
    cases part with
    | none => exact cutAt_nowhere hpoint
    | some part => exact cutAt_mark hpoint
  have hpart : part.elim (.ok 0) readFraction = .ok ((part.elim 0 fractionValue : Nat) : Int) := by
    cases part with
    | none => rfl
    | some part =>
      obtain ⟨hdigits, hne, hlength⟩ := h.part part rfl
      exact readFraction_digits hdigits hne hlength
  simp only [readSeconds, hcut, hpart, hwhole]
  by_cases hout : 59 < digitsValue whole <;> simp only [hout, if_true, if_false] <;> rfl

theorem splitAt_clock (h : w.Proper) :
    splitAt ':' w.clock = w.hours :: w.minutes :: w.seconds.elim [] fun s => [secondChars s] := by
  rw [WrittenSpan.clock, splitAt_mark (not_mem_digits h.hours.1 rfl)]
  cases hseconds : w.seconds with
  | none =>
    rw [Option.elim_none, List.append_nil, splitAt_nowhere (not_mem_digits h.minutes.1 rfl)]
    rfl
  | some s =>
    obtain ⟨whole, part⟩ := s
    obtain ⟨hwhole, hpart⟩ := h.seconds _ hseconds
    have hcolon : ':' ∉ secondChars (whole, part) := by
      cases part with
      | none => exact not_mem_digits hwhole.1 rfl
      | some part =>
        have hcolon : ':' ∉ whole := not_mem_digits hwhole.1 rfl
        have hcolon' : ':' ∉ part := not_mem_digits (hpart part rfl).1 rfl
        have hmark : (':' : Char) ≠ '.' := by decide
        simp [secondChars, hcolon, hcolon', hmark]
    rw [Option.elim_some, splitAt_mark (not_mem_digits h.minutes.1 rfl), splitAt_nowhere hcolon]
    rfl

/-- A clock gives the numbers written on it, or the first that is out of range. -/
theorem readClock_written (h : w.Proper) :
    readClock w.clock =
      if 23 < w.hourCount then .error .hours
      else if 59 < w.minuteCount then .error .minutes
      else if 59 < w.secondCount then .error .seconds
      else .ok (w.hourCount, w.minuteCount, w.secondCount, w.nanoCount) := by
  have hsplit := splitAt_clock h
  obtain ⟨days, hours, minutes, seconds⟩ := w
  have hhours : leadingUpTo? 23 hours = if 23 < digitsValue hours then none
      else some (digitsValue hours : Int) :=
    leadingUpTo?_digits h.hours 23
  have hminutes : leadingUpTo? 59 minutes = if 59 < digitsValue minutes then none
      else some (digitsValue minutes : Int) :=
    leadingUpTo?_digits h.minutes 59
  simp only [WrittenSpan.hourCount, WrittenSpan.minuteCount, WrittenSpan.secondCount,
    WrittenSpan.nanoCount]
  cases seconds with
  | none =>
    simp only [readClock, hsplit, Option.elim_none, hhours, hminutes]
    by_cases hhour : 23 < digitsValue hours <;> by_cases hminute : 59 < digitsValue minutes <;>
      simp only [hhour, hminute, if_true, if_false] <;> rfl
  | some s =>
    simp only [readClock, hsplit, Option.elim_some, hhours, hminutes,
      readSeconds_written (h.seconds s rfl)]
    by_cases hhour : 23 < digitsValue hours <;> by_cases hminute : 59 < digitsValue minutes <;>
      by_cases hsecond : 59 < digitsValue s.1 <;>
        simp only [hhour, hminute, hsecond, if_true, if_false] <;> rfl

/-- A clock alone has no days, although there may be a point behind its colons. -/
theorem readDays_clock (h : w.Proper) : readDays w.clock = .ok (0, w.clock) := by
  obtain ⟨days, hours, minutes, seconds⟩ := w
  have hhours : '.' ∉ hours := not_mem_digits h.hours.1 rfl
  have hminutes : '.' ∉ minutes := not_mem_digits h.minutes.1 rfl
  have hmark : ('.' : Char) ≠ ':' := by decide
  rcases seconds with _ | ⟨whole, _ | part⟩
  · have hnowhere : '.' ∉ hours ++ ':' :: (minutes ++ []) := by simp [hhours, hminutes, hmark]
    rw [readDays, WrittenSpan.clock, Option.elim_none, cutAt_nowhere hnowhere]
  · have hwhole : '.' ∉ whole := not_mem_digits (h.seconds _ rfl).whole.1 rfl
    have hnowhere : '.' ∉ hours ++ ':' :: (minutes ++ ':' :: whole) := by
      simp [hhours, hminutes, hwhole, hmark]
    simp only [readDays, WrittenSpan.clock, Option.elim_some, secondChars, cutAt_nowhere hnowhere]
  · have hwhole : '.' ∉ whole := not_mem_digits (h.seconds _ rfl).whole.1 rfl
    have hpart : ':' ∉ part := not_mem_digits ((h.seconds _ rfl).part part rfl).1 rfl
    have hfront : '.' ∉ hours ++ ':' :: (minutes ++ ':' :: whole) := by
      simp [hhours, hminutes, hwhole, hmark]
    have hclock : WrittenSpan.clock ⟨days, hours, minutes, some (whole, some part)⟩ =
        (hours ++ ':' :: (minutes ++ ':' :: whole)) ++ '.' :: part := by
          simp [WrittenSpan.clock, secondChars]
    have hcontains : part.contains ':' = false := by simpa using hpart
    rw [readDays, hclock, cutAt_mark hfront]
    simp only [hcontains, Bool.false_and, Bool.false_eq_true, if_false]

/-- Days in front of a clock are read as their number, if it has 64 bits. -/
theorem readDays_dated {d : List Char} (hdigits : AllDigits d) (hne : d ≠ []) (w : WrittenSpan) :
    readDays (d ++ '.' :: w.clock) =
      if IntKind.long.holds (digitsValue d) then .ok (digitsValue d, w.clock)
      else .error .days := by
  have hcolon : w.clock.contains ':' = true := by simp [WrittenSpan.clock]
  have hd : d.contains ':' = false := by simpa using not_mem_digits hdigits rfl
  rw [readDays, cutAt_mark (not_mem_digits hdigits rfl)]
  simp only [hcolon, hd, Bool.not_false, Bool.and_self, if_true, leadingInt?_digits hdigits hne]
  by_cases hheld : IntKind.long.holds (digitsValue d) = true
  · simp only [hheld, if_true]
  · simp only [hheld, if_false, Bool.false_eq_true]

/-- The first point ends the days if it stands before the first colon, and otherwise belongs to a
fraction. -/
theorem readDays_written (h : w.Proper) :
    readDays w.chars =
      if IntKind.long.holds w.dayCount then .ok (w.dayCount, w.clock) else .error .days := by
  obtain ⟨days, hours, minutes, seconds⟩ := w
  cases days with
  | none => exact readDays_clock h
  | some d =>
    obtain ⟨hdigits, hne⟩ := h.days d rfl
    have hchars : WrittenSpan.chars ⟨some d, hours, minutes, seconds⟩ =
        d ++ '.' :: WrittenSpan.clock ⟨some d, hours, minutes, seconds⟩ := List.append_assoc _ _ _
    rw [hchars]
    exact readDays_dated hdigits hne _

theorem plain_of_isDigit {c : Char} (h : c.isDigit = true) : c.toNat < 0x80 :=
  lt_of_le_of_lt (toNat_digit h).2 (by decide)

theorem plain_secondChars {s : List Char × Option (List Char)} (h : ProperSeconds s) :
    ∀ c ∈ secondChars s, c.toNat < 0x80 := by
  obtain ⟨whole, part⟩ := s
  intro c hc
  cases part with
  | none => exact plain_of_isDigit (h.whole.1 c hc)
  | some part =>
    rcases List.mem_append.1 hc with hc | hc
    · exact plain_of_isDigit (h.whole.1 c hc)
    rcases List.mem_cons.1 hc with rfl | hc
    · decide
    · exact plain_of_isDigit ((h.part part rfl).1 c hc)

/-- A time span is written in ASCII. -/
theorem plain_chars (h : w.Proper) : ∀ c ∈ w.chars, c.toNat < 0x80 := by
  obtain ⟨days, hours, minutes, seconds⟩ := w
  have hdays : ∀ c ∈ days.elim [] (· ++ ['.']), c.toNat < 0x80 := by
    cases days with
    | none => exact List.forall_mem_nil _
    | some d =>
      intro c hc
      rcases List.mem_append.1 hc with hc | hc
      · exact plain_of_isDigit ((h.days d rfl).1 c hc)
      · rw [List.mem_singleton.1 hc]
        decide
  have hseconds : ∀ c ∈ seconds.elim [] fun s => ':' :: secondChars s, c.toNat < 0x80 := by
    cases seconds with
    | none => exact List.forall_mem_nil _
    | some s => exact List.forall_mem_cons.2 ⟨by decide, plain_secondChars (h.seconds s rfl)⟩
  intro c hc
  simp only [WrittenSpan.chars, WrittenSpan.clock, List.mem_append, List.mem_cons] at hc
  rcases hc with hc | hc | rfl | hc | hc
  · exact hdays c hc
  · exact plain_of_isDigit (h.hours.1 c hc)
  · decide
  · exact plain_of_isDigit (h.minutes.1 c hc)
  · exact hseconds c hc

/-- A time span is read as its total modulo 64 bits, unless one of its parts is out of range. -/
theorem readSpan_written (h : w.Proper) :
    readSpan (Text.ofByteChars w.chars) = w.fault?.elim
      (.ok (IntKind.long.wrap w.total)) .error := by
  have htext : (Text.ofByteChars w.chars).toString.toList = w.chars := by
    rw [Text.toString, String.toList_ofList, Text.glyphs_ofByteChars (plain_chars h), List.map_map]
    exact (List.map_congr_left fun c _ => Char.ofNat_toNat c).trans (List.map_id _)
  have hwrap : ∀ n, IntKind.long.wrap n = n.bmod (Nat.pow 2 64) := fun _ => rfl
  simp only [readSpan, htext, readDays_written h, WrittenSpan.fault?, hwrap, WrittenSpan.total]
  by_cases hheld : IntKind.long.holds w.dayCount = true
  · simp only [hheld, if_true]
    show (readClock w.clock >>= _) = _
    rw [readClock_written h]
    by_cases hhour : 23 < w.hourCount
    · simp only [hhour, if_true]; rfl
    by_cases hminute : 59 < w.minuteCount
    · simp only [hhour, hminute, if_true, if_false]; rfl
    by_cases hsecond : 59 < w.secondCount
    · simp only [hhour, hminute, hsecond, if_true, if_false]; rfl
    · simp only [hhour, hminute, hsecond, if_false]; rfl
  · simp only [hheld, if_false, Bool.false_eq_true]
    rfl

end Reading

end Calendar

namespace Lexical

open Calendar (TwoDigits ProperSeconds WrittenSpan secondChars)

section Scanned

variable {p : Nat → Bool}

theorem takes_mark {c : Char} (hc : c.toNat < 0x80) : Takes (mark c) fun cs => cs = [c] := by
  refine (takes_one fun n hn => ?_).mono ?_
  · rw [beq_iff_eq] at hn
    omega
  · rintro cs ⟨x, rfl, hx⟩
    rw [Char.toNat_inj.1 (beq_iff_eq.1 hx)]

theorem takes_upTo_le (hp : ∀ c, p c = true → c < 0x80) (m : Nat) :
    Takes (upTo p m) fun cs => cs.length ≤ m ∧ ∀ c ∈ cs, p c.toNat = true := by
  intro gs n hn
  obtain ⟨hle, hascii, hform⟩ := takes_upTo hp m gs n hn
  have hrun := run_le p (gs.take m)
  cases hn
  rw [List.length_take] at hrun
  refine ⟨hle, hascii, ?_, hform⟩
  simp only [letters, List.length_map, List.length_take]
  omega

theorem takes_exactly (hp : ∀ c, p c = true → c < 0x80) (m : Nat) :
    Takes (exactly p m) fun cs => cs.length = m ∧ ∀ c ∈ cs, p c.toNat = true := by
  intro gs n hn
  unfold exactly at hn
  split at hn
  · rename_i hrun
    cases hn
    obtain ⟨hle, hascii, hform⟩ := takes_upTo hp m gs m (by rw [upTo, beq_iff_eq.1 hrun])
    refine ⟨hle, hascii, ?_, hform⟩
    simp only [letters, List.length_map, List.length_take]
    omega
  · cases hn

theorem takes_two : Takes (exactly Text.isAsciiDigit 2) TwoDigits :=
  (takes_exactly (fun _ => lt_of_isAsciiDigit) 2).mono fun _ ⟨hlength, hdigits⟩ =>
    ⟨fun c hc => isDigit_of_isAsciiDigit (hdigits c hc), hlength⟩

theorem takes_fraction : Takes (parts [mark '.', one Text.isAsciiDigit, upTo Text.isAsciiDigit 6])
    fun cs =>
    ∃ part, cs = '.' :: part ∧ AllDigits part ∧ part ≠ [] ∧ part.length ≤ 7 := by
  refine (takes_both (takes_mark (by decide)) (takes_both (takes_one fun _ => lt_of_isAsciiDigit)
    (takes_last (takes_upTo_le (fun _ => lt_of_isAsciiDigit) 6)))).mono ?_
  rintro _ ⟨_, _, rfl, rfl, _, ds, rfl, ⟨d, rfl, hd⟩, hlength, hds⟩
  refine ⟨d :: ds, rfl, ?_, List.cons_ne_nil _ _, by rw [List.length_cons]; omega⟩
  intro c hc
  rcases List.mem_cons.1 hc with rfl | hc
  · exact isDigit_of_isAsciiDigit hd
  · exact isDigit_of_isAsciiDigit (hds c hc)

theorem takes_seconds : Takes (parts [mark ':', exactly Text.isAsciiDigit 2,
    optional (parts [mark '.', one Text.isAsciiDigit, upTo Text.isAsciiDigit 6])]) fun cs =>
      ∃ s, cs = ':' :: secondChars s ∧ ProperSeconds s := by
  refine (takes_both (takes_mark (by decide))
    (takes_both takes_two (takes_last (takes_optional takes_fraction)))).mono ?_
  rintro _ ⟨_, _, rfl, rfl, whole, v, rfl, hwhole, hv⟩
  rcases hv with rfl | ⟨part, rfl, hpart⟩
  · exact ⟨(whole, none), by simp [secondChars], hwhole, nofun⟩
  · exact ⟨(whole, some part), rfl, hwhole, by simpa using hpart⟩

/-- The scanner of time spans takes what can be written as one. -/
theorem takes_timeSpan :
    Takes scanTimeSpan fun cs => ∃ w : WrittenSpan,
      cs = '#' :: '#' :: (w.chars ++ ['#']) ∧ w.Proper := by
  have hmark : Takes (mark '#') fun cs => cs = ['#'] := takes_mark (by decide)
  have hdays := takes_optional (takes_both (takes_many1 fun _ => lt_of_isAsciiDigit)
    (takes_mark (c := '.') (by decide)))
  refine (takes_both hmark (takes_both hmark (takes_both hdays (takes_both takes_two (takes_both
    (takes_mark (c := ':') (by decide)) (takes_both takes_two
      (takes_both (takes_optional takes_seconds)
      (takes_last hmark)))))))).mono ?_
  rintro _ ⟨_, _, rfl, rfl, _, _, rfl, rfl, u, _, rfl, hu, hours, _, rfl, hhours, _, _, rfl, rfl,
    minutes, _, rfl, hminutes, v, _, rfl, hv, rfl⟩
  obtain ⟨days, rfl, hdays⟩ : ∃ days : Option (List Char), u = days.elim [] (· ++ ['.']) ∧
      ∀ cs ∈ days, AllDigits cs ∧ cs ≠ [] := by
    rcases hu with rfl | ⟨d, _, rfl, ⟨hne, hd⟩, rfl⟩
    · exact ⟨none, rfl, nofun⟩
    · exact ⟨some d, rfl, by simpa using ⟨fun c hc => isDigit_of_isAsciiDigit (hd c hc), hne⟩⟩
  obtain ⟨seconds, rfl, hseconds⟩ : ∃ seconds : Option (List Char × Option (List Char)),
      v = seconds.elim [] (fun s => ':' :: secondChars s) ∧ ∀ s ∈ seconds, ProperSeconds s := by
    rcases hv with rfl | ⟨s, rfl, hs⟩
    · exact ⟨none, rfl, nofun⟩
    · exact ⟨some s, rfl, by simpa using hs⟩
  exact ⟨⟨days, hours, minutes, seconds⟩, by simp [WrittenSpan.chars,
    WrittenSpan.clock], hdays, hhours, hminutes, hseconds⟩

variable {o : Options}

/-- The image of a time span is one that can be written. -/
theorem exists_writtenSpan {text : Text} {t : Token}
    (ht : t ∈ ((Lexer.ofOptions o).tokenize text).1)
    (hk : t.kind = .timeSpan) : ∃ w : WrittenSpan, w.Proper ∧ w.image = t.image := by
  obtain ⟨rest, n, hspelled, htaken, himage⟩ := spelled_of_token ht
  obtain ⟨scan, hmem, hn⟩ := scanned_of_tokenAt? htaken (by rw [hk]; simp [scanners])
  have hscan : scan = scanTimeSpan := by simpa [hk, scanners] using hmem
  obtain ⟨-, hascii, w, hform, hw⟩ := takes_timeSpan rest n (hscan ▸ hn)
  have hpos : n ≠ 0 := by
    rintro rfl
    cases hform
  refine ⟨w, hw, ?_⟩
  rw [himage hpos, bytes_eq hspelled hascii, hform]
  rfl

end Scanned

end Lexical

namespace Calendar

variable {w : WrittenSpan}

/-- The body of the literal of a time span is the time span. -/
theorem inside_image (w : WrittenSpan) : (Build.inside w.image).drop 1 =
    Text.ofByteChars w.chars := by
  simp only [Build.inside, WrittenSpan.image, Text.ofByteChars, List.map_cons,
    List.map_append, List.map_nil, List.drop_succ_cons, List.drop_zero]
  rw [← List.cons_append, List.dropLast_concat]
  rfl

/-- Where the total has 64 bits, so have the days. -/
theorem holds_dayCount (h : IntKind.long.holds w.total = true) :
    IntKind.long.holds w.dayCount = true := by
  rw [IntKind.holds_iff] at h ⊢
  have hlow := IntKind.long.low_nonpos
  have htotal := h.2
  unfold WrittenSpan.total at htotal
  omega

/-- The parts of a clock that are out of range, or days that do not have 64 bits, are what makes a
fault. -/
theorem fault?_isSome_iff : w.fault?.isSome = true ↔
    23 < w.hourCount ∨ 59 < w.minuteCount ∨ 59 < w.secondCount ∨
      ¬IntKind.long.holds w.dayCount = true := by
  unfold WrittenSpan.fault?
  by_cases hheld : IntKind.long.holds w.dayCount = true
  · rw [if_pos hheld]
    split_ifs <;> simp_all
  · simp [hheld]

/-- The body of a token of a time span is in error for the parts that are written in it and out of
range. Otherwise it stands for their total modulo 64 bits, and so for the total itself where that
fits. -/
theorem timeSpan_read {o : Lexical.Options} {text : Text} {t : Lexical.Token}
    (ht : t ∈ ((Lexical.Lexer.ofOptions o).tokenize text).1) (hk : t.kind = .timeSpan) :
    (∃ w : WrittenSpan, w.Proper ∧ w.image = t.image) ∧
    ∀ w : WrittenSpan, w.Proper → w.image = t.image →
      ((∃ fault, readSpan ((Build.inside t.image).drop 1) = .error fault) ↔
        23 < w.hourCount ∨ 59 < w.minuteCount ∨ 59 < w.secondCount ∨
          ¬IntKind.long.holds w.dayCount = true) ∧
      (∀ n, readSpan ((Build.inside t.image).drop 1) = .ok n →
        n ≡ w.total [ZMOD 2 ^ 64] ∧ IntKind.long.holds n = true ∧
          (n = w.total ↔ IntKind.long.holds w.total = true)) ∧
      (IntKind.long.holds w.total = true → IntKind.long.holds w.dayCount = true) := by
  refine ⟨Lexical.exists_writtenSpan ht hk, fun w hw himage => ?_⟩
  rw [← himage, inside_image, readSpan_written hw, ← fault?_isSome_iff]
  refine ⟨?_, fun n hn => ?_, holds_dayCount⟩
  · cases w.fault? with
    | none => simp
    | some fault => simp
  · cases hfault : w.fault? with
    | some fault =>
      rw [hfault] at hn
      cases hn
    | none =>
      rw [hfault] at hn
      generalize w.total = total at hn ⊢
      cases hn
      exact ⟨IntKind.long.wrap_modEq total, IntKind.long.holds_wrap total,
        IntKind.long.wrap_eq_self total⟩

/-- One day, two hours, three minutes and four and a half seconds. -/
theorem timeSpan_read_day :
    let w : WrittenSpan := ⟨some ['1'], ['0', '2'], ['0', '3'], some (['0', '4'], some ['5'])⟩
    ⟨.timeSpan, w.image, {}⟩ ∈ ((Lexical.Lexer.ofOptions {}).tokenize
      (Text.ofString "##1.02:03:04.5#")).1 ∧
      w.Proper ∧ readSpan ((Build.inside w.image).drop 1) = .ok 93784500000000 := by
  intro w
  have ht : ⟨.timeSpan, w.image, {}⟩ ∈ ((Lexical.Lexer.ofOptions {}).tokenize
      (Text.ofString "##1.02:03:04.5#")).1 := by
    rw [Lexical.tokenize_standing]
    decide +kernel
  have hw : w.Proper := by decide
  have htotal : w.total = 93784500000000 := by decide
  obtain ⟨herror, hok, -⟩ := (timeSpan_read ht rfl).2 w hw rfl
  cases hread : readSpan ((Build.inside w.image).drop 1) with
  | error fault => exact absurd (herror.1 ⟨fault, hread⟩) (by decide)
  | ok n => exact ⟨ht, hw, congrArg Except.ok (((hok n hread).2.2.2 (by decide)).trans htotal)⟩

/-- The least number of days that is too large: the literal stands for almost as much time in the
past. -/
theorem timeSpan_read_wraps :
    let w : WrittenSpan := ⟨some ['1', '0', '6', '7', '5', '2'], ['0', '0'], ['0', '0'],
      some (['0', '0'], none)⟩
    ⟨.timeSpan, w.image, {}⟩ ∈ ((Lexical.Lexer.ofOptions {}).tokenize
      (Text.ofString "##106752.00:00:00#")).1 ∧
      w.Proper ∧ w.total = 9223372800000000000 ∧ ¬IntKind.long.holds w.total = true ∧
      readSpan ((Build.inside w.image).drop 1) = .ok (-9223371273709551616) := by
  intro w
  have hw : w.Proper := by decide
  have hfault : w.fault? = none := by decide
  have hwrap : IntKind.long.wrap w.total = -9223371273709551616 := by decide
  refine ⟨?_, hw, by decide, by decide, ?_⟩
  · rw [Lexical.tokenize_standing]
    decide +kernel
  · rw [inside_image, readSpan_written hw, hfault, hwrap]
    rfl

end Calendar

end Formulary
