import Formulary.Lexical.Automaton
import Formulary.Lexical.Lexeme

/-!
# The cursor of a lexer

A lexer reads its input with a cursor that can be put back by the character that was read last. The
scanners are tried one after another from one start. Each leaves the cursor where it gave up, and in
the end the cursor stands behind the longest match, which may be a fixed string. The line of an
offset is found among the starts of the lines, and its column is counted from the offset that was
asked for before, if that is on the same line and not behind it.
-/

namespace Formulary.Lexical

structure Head where
  current : Nat := 0
  width : Nat := 0
  deriving DecidableEq, Repr

abbrev Reading := ReaderT Text (StateM Head)

namespace Reading

/-- The next character. There is none at the end, which takes no bytes. -/
def nextRune : Reading (Option Nat) := fun input h =>
  if input.length ≤ h.current then (none, { h with width := 0 })
  else
    let (code, width) := Text.decodeFirst (input.drop h.current)
    (some code, ⟨h.current + width, width⟩)

def backup : Reading Unit := fun _ h => ((), ⟨h.current - h.width, h.width⟩)

/-- Passes a character of a class. The end is in no class. -/
def accept (p : Nat → Bool) : Reading Bool := do
  if (← nextRune).any p then return true
  backup
  return false

def acceptRune (c : Char) : Reading Bool := accept (· == c.toNat)

theorem nextRune_le (input : Text) (h : Head) : h.current ≤ (nextRune input h).2.current := by
  unfold nextRune
  split
  · exact Nat.le_refl _
  · exact Nat.le_add_right _ _

theorem nextRune_lt {input : Text} {h : Head} (hlt : h.current < input.length) :
    h.current < (nextRune input h).2.current := by
  obtain ⟨b, t, hdrop⟩ := List.exists_cons_of_length_pos (l := input.drop h.current)
    (by simp; omega)
  have hpos := Text.decodeFirst_width_pos b t
  rw [nextRune, if_neg (by omega), hdrop]
  simp only
  omega

theorem nextRune_back (input : Text) (h : Head) :
    (nextRune input h).2.current - (nextRune input h).2.width = h.current := by
  unfold nextRune
  split
  · exact Nat.sub_zero _
  · exact Nat.add_sub_cancel ..

theorem accept_eq (p : Nat → Bool) (input : Text) (h : Head) : accept p input h =
    if (nextRune input h).1.any p then (true, (nextRune input h).2)
    else (false, ⟨h.current, (nextRune input h).2.width⟩) := by
  rw [← nextRune_back input h]
  show (if (nextRune input h).1.any p then (pure true : Reading Bool) else _) input
    (nextRune input h).2 = _
  split <;> rfl

theorem accept_lt {p : Nat → Bool} {input : Text} {h : Head}
    (haccept : (accept p input h).1 = true) :
    h.current < input.length ∧ h.current < (accept p input h).2.current := by
  rw [accept_eq] at haccept ⊢
  split at haccept
  · rename_i hany
    rw [if_pos hany]
    have hlt : h.current < input.length := by
      refine Nat.lt_of_not_le fun hle => ?_
      rw [nextRune, if_pos hle] at hany
      cases hany
    exact ⟨hlt, nextRune_lt hlt⟩
  · cases haccept

theorem accept_le (p : Nat → Bool) (input : Text) (h : Head) :
    h.current ≤ (accept p input h).2.current := by
  rw [accept_eq]
  split
  · exact nextRune_le input h
  · exact Nat.le_refl _

/-- Passes all characters of a class, and says whether there was one. -/
def acceptAll (p : Nat → Bool) (input : Text) (h : Head) : Bool × Head :=
  if (accept p input h).1 then (true, (acceptAll p input (accept p input h).2).2)
  else accept p input h
termination_by input.length - h.current
decreasing_by
  have haccepted : (accept p input h).1 = true := by assumption
  have hlt := accept_lt haccepted
  omega

theorem acceptAll_le (p : Nat → Bool) (input : Text) (h : Head) :
    h.current ≤ (acceptAll p input h).2.current := by
  fun_induction acceptAll p input h with
  | case1 h haccept ih => exact Nat.le_trans (accept_le p input h) ih
  | case2 h haccept => exact accept_le p input h

/-- Passes up to a number of characters of a class, and counts them. -/
def count (p : Nat → Bool) : Nat → Reading Nat
  | 0 => return 0
  | n + 1 => do
    if ← accept p then return (← count p n) + 1
    return 0

/-- Passes a number of characters of a class. -/
def acceptTimes (p : Nat → Bool) : Nat → Reading Bool
  | 0 => return true
  | n + 1 => accept p <&&> acceptTimes p n

def optionally (r : Reading Bool) : Reading Bool := do
  discard r
  return true

/-- What leaves the cursor where it was, unless it is there. -/
def restoring (r : Reading Bool) : Reading Bool := do
  let mark := (← get).current
  if ← r then return true
  modify ({ · with current := mark })
  return false

def acceptIntegerSuffix : Reading Bool :=
  optionally ((accept (isEither 'u') <&&> optionally (accept (isEither 'l'))) <||>
    (accept (isEither 'l') <&&> optionally (accept (isEither 'u'))))

def isRealSuffix (c : Nat) : Bool := isEither 'd' c || isEither 'f' c || isEither 'm' c

def acceptExponent : Reading Bool :=
  restoring (accept (isEither 'e') <&&> optionally (accept fun c => c == 0x2B || c == 0x2D) <&&>
    (· != 0) <$> count Text.isAsciiDigit 3)

/-- What makes digits without a decimal point a real: an exponent, a suffix or both. -/
def acceptEnding : Reading Bool := do
  let power ← acceptExponent
  return (← accept isRealSuffix) || power

def scanInteger : Reading Bool := acceptAll Text.isAsciiDigit <&&> acceptIntegerSuffix

def scanHex : Reading Bool :=
  acceptRune '0' <&&> accept (isEither 'x') <&&> acceptAll isHexDigit <&&> acceptIntegerSuffix

def scanReal (o : Options) : Reading Bool := do
  let whole ← acceptAll Text.isAsciiDigit
  if ← accept (· == o.decimalPoint) then
    if !whole && o.requireDigits then return false
    acceptAll Text.isAsciiDigit <&&> optionally acceptExponent <&&> optionally (accept isRealSuffix)
  else if !whole then return false
  else acceptEnding

def acceptEscape : Reading Bool := do
  match ← nextRune with
  | none => return false
  | some c =>
    if [0x5C, 0x22, 0x27, 0x74, 0x72, 0x6E].contains c then return true
    else if isEither 'u' c then acceptTimes isHexDigit 4
    else return false

theorem bind_eq {α β : Type} (r : Reading α) (f : α → Reading β) (input : Text) (h : Head) :
    (r >>= f) input h = f (r input h).1 input (r input h).2 := rfl

theorem and_eq (a b : Reading Bool) (input : Text) (h : Head) :
    (a <&&> b) input h =
      if (a input h).1 then b input (a input h).2 else (false, (a input h).2) := by
  rw [andM, bind_eq]
  cases (a input h).1 <;> rfl

theorem acceptTimes_le (p : Nat → Bool) (n : Nat) (input : Text) (h : Head) :
    h.current ≤ (acceptTimes p n input h).2.current := by
  induction n generalizing h with
  | zero => exact Nat.le_refl _
  | succ n ih =>
    rw [acceptTimes, and_eq]
    split
    · exact Nat.le_trans (accept_le p input h) (ih _)
    · exact accept_le p input h

theorem acceptEscape_le (input : Text) (h : Head) :
    h.current ≤ (acceptEscape input h).2.current := by
  have hfirst := nextRune_le input h
  rw [acceptEscape, bind_eq]
  cases (nextRune input h).1 with
  | none => exact hfirst
  | some c =>
    dsimp only
    split
    · exact hfirst
    · split
      · exact Nat.le_trans hfirst (acceptTimes_le isHexDigit 4 input _)
      · exact hfirst

/-- The rest of a string behind its opening quote. -/
def acceptString (input : Text) (h : Head) : Bool × Head :=
  match _hnext : nextRune input h with
  | (none, h') => (false, h')
  | (some c, h') =>
    if c == 0x22 then (true, h')
    else if c == 0x5C then
      if (acceptEscape input h').1 then acceptString input (acceptEscape input h').2
      else (false, (acceptEscape input h').2)
    else if isLineEnd c then (false, h')
    else acceptString input h'
termination_by input.length - h.current
decreasing_by
  all_goals
    have hlt : h.current < input.length := by
      refine Nat.lt_of_not_le fun hle => ?_
      rw [nextRune, if_pos hle] at _hnext
      cases _hnext
    have hnextlt := nextRune_lt hlt
    rw [_hnext] at hnextlt
    dsimp only at hnextlt
    have hescape := acceptEscape_le input h'
    omega

def scanString : Reading Bool := acceptRune '"' <&&> acceptString

def acceptCharacter : Reading Bool := do
  match ← nextRune with
  | none => return false
  | some c => if c == 0x5C then acceptEscape else return c != 0x27 && !isLineEnd c

def scanChar : Reading Bool := acceptRune '\'' <&&> acceptCharacter <&&> acceptRune '\''

def scanDateTime : Reading Bool :=
  acceptRune '#' <&&> acceptAll (fun c => c != 0x23 && !isLineEnd c) <&&> acceptRune '#'

def acceptFraction : Reading Bool := do
  if ← acceptRune '.' then (· != 0) <$> count Text.isAsciiDigit 7
  else return true

def acceptSeconds : Reading Bool := do
  if ← acceptRune ':' then acceptTimes Text.isAsciiDigit 2 <&&> acceptFraction
  else return true

def scanTimeSpan : Reading Bool :=
  acceptRune '#' <&&> acceptRune '#' <&&>
    optionally (restoring (acceptAll Text.isAsciiDigit <&&> acceptRune '.')) <&&>
    acceptTimes Text.isAsciiDigit 2 <&&> acceptRune ':' <&&> acceptTimes Text.isAsciiDigit 2 <&&>
    acceptSeconds <&&> acceptRune '#'

def scanIdentifier : Reading Bool :=
  optionally (acceptRune '@') <&&> accept isNameStart <&&> optionally (acceptAll isNamePart)

def scanners (o : Options) : List (Kind × Reading Bool) :=
  [(.hex, scanHex), (.real, scanReal o), (.integer, scanInteger), (.string, scanString),
    (.char, scanChar), (.timeSpan, scanTimeSpan), (.dateTime, scanDateTime),
    (.identifier, scanIdentifier)]

/-- Tries scanners one after another from one start: the longest match, or the one before if none is
longer. -/
def longest (start : Nat) : List (Kind × Reading Bool) → Kind × Nat → Reading (Kind × Nat)
  | [], best => return best
  | (kind, scan) :: rest, best => do
    modify ({ · with current := start })
    let found ← scan
    let length := (← get).current - start
    longest start rest (if found && best.2 < length then (kind, length) else best)

end Reading

/-- A lexer at work: the text with the starts of its lines, where the next token starts and how far
the text is read, the offset that was asked for last with its line, from zero, and its column, and
the unexpected characters so far. -/
structure Cursor where
  automaton : Automaton
  options : Options
  input : Text
  lineStarts : List Nat
  start : Nat := 0
  head : Head := {}
  markPos : Nat := 0
  markLine : Nat := 0
  markColumn : Nat := 1
  log : List (Nat × Place) := []

/-- The offsets behind the line feeds of a text that stands at an offset. -/
def lineStartsFrom (i : Nat) : Text → List Nat
  | [] => []
  | b :: rest =>
    if b == 0x0A then (i + 1) :: lineStartsFrom (i + 1) rest else lineStartsFrom (i + 1) rest

def Lexer.reset (l : Lexer) (input : Text) : Cursor where
  automaton := l.dictionary.automaton
  options := l.options
  input := input
  lineStarts := 0 :: lineStartsFrom 0 input

def Lexeme.ofReport (e : Nat × Place) : Lexeme := .stray e.1 e.2

namespace Cursor

def lineColumn (c : Cursor) (pos : Nat) : Place × Cursor :=
  let i := searchBetween (fun i => c.lineStarts[i]?.any (pos < ·)) 0 c.lineStarts.length - 1
  let known :=
    if i == c.markLine && c.markPos ≤ pos then (c.markPos, c.markColumn)
    else (c.lineStarts[i]?.getD 0, 1)
  let column := known.2 + Text.characterCount ((c.input.drop known.1).take (pos - known.1))
  (⟨pos, i + 1, column⟩, { c with markPos := pos, markLine := i, markColumn := column })

/-- Starts the next token where the text is read to. -/
def ignore (c : Cursor) : Cursor := { c with start := c.head.current }

def skipBlanks (c : Cursor) : Cursor :=
  ignore { c with head := (Reading.acceptAll isBlank c.input c.head).2 }

def ending (c : Cursor) : Token × Cursor :=
  (⟨.eof, [], (c.lineColumn c.head.current).1⟩, (c.lineColumn c.head.current).2)

/-- The token from the start to where the text is read to. -/
def newToken (c : Cursor) (kind : Kind) : Token × Cursor :=
  (⟨kind, (c.input.drop c.start).take (c.head.current - c.start), (c.lineColumn c.start).1⟩,
    { (c.lineColumn c.start).2 with head := { c.head with width := 0 }, start := c.head.current })

/-- The longest match from where the text is read to, with its length in bytes, and the cursor as
the scanners leave it. A fixed string wins a tie. -/
def longest (c : Cursor) : (Kind × Nat) × Cursor :=
  let fixed := c.automaton.matchAt c.input c.head.current
  let scanned := Reading.longest c.head.current (Reading.scanners c.options)
    (.eof, 0) c.input c.head
  (if 0 < fixed.2 && scanned.1.2 ≤ fixed.2 then fixed else scanned.1, { c with head := scanned.2 })

/-- Reports the character at an offset and passes it. -/
def report (c : Cursor) (pos : Nat) : Cursor :=
  let read := Reading.nextRune c.input { c.head with current := pos }
  let found := lineColumn { c with head := read.2 } pos
  ignore { found.2 with log := c.log ++ [(read.1.getD Text.replacement, found.1)] }

theorem skipBlanks_input (c : Cursor) : c.skipBlanks.input = c.input := rfl

theorem longest_input (c : Cursor) : c.longest.2.input = c.input := by rw [longest]

theorem skipBlanks_le (c : Cursor) : c.head.current ≤ c.skipBlanks.head.current :=
  Reading.acceptAll_le _ _ _

/-- A character that is reported is passed. -/
theorem report_lt {c : Cursor} {n : Nat} (hn : n < c.input.length) :
    (c.report n).input = c.input ∧ n < (c.report n).head.current :=
  ⟨rfl, Reading.nextRune_lt (h := { c.head with current := n }) hn⟩

/-- The cursor behind a match of some bytes. -/
def past (c : Cursor) (pos length : Nat) : Cursor :=
  { c with head := { c.head with current := pos + length } }

def next (c : Cursor) : Token × Cursor :=
  if c.input.length ≤ c.skipBlanks.head.current then c.skipBlanks.ending
  else if c.skipBlanks.longest.1.2 = 0 then
    (c.skipBlanks.longest.2.report c.skipBlanks.head.current).next
  else
    (c.skipBlanks.longest.2.past c.skipBlanks.head.current c.skipBlanks.longest.1.2).newToken
      c.skipBlanks.longest.1.1
termination_by c.input.length - c.head.current
decreasing_by
  rename_i hend _
  have hskip := c.skipBlanks_le
  have hsame : c.skipBlanks.longest.2.input = c.input := by rw [longest_input, skipBlanks_input]
  obtain ⟨hinput, hlt⟩ := report_lt (c := c.skipBlanks.longest.2) (n := c.skipBlanks.head.current)
    (by rw [hsame]; exact Nat.lt_of_not_le hend)
  rw [hinput, hsame]
  omega

/-- A token other than the end is behind the cursor. -/
theorem next_lt {c : Cursor} (h : c.next.1.kind ≠ .eof) :
    c.next.2.input = c.input ∧ c.head.current < c.input.length ∧
      c.head.current < c.next.2.head.current := by
  fun_induction next c with
  | case1 c hend => exact absurd rfl h
  | case2 c hend hnone ih =>
    have hskip := c.skipBlanks_le
    have hsame : c.skipBlanks.longest.2.input = c.input := by rw [longest_input, skipBlanks_input]
    obtain ⟨hinput, hlt⟩ := report_lt (c := c.skipBlanks.longest.2) (n := c.skipBlanks.head.current)
      (by rw [hsame]; exact Nat.lt_of_not_le hend)
    obtain ⟨hkeeps, -, hpast⟩ := ih h
    exact ⟨hkeeps.trans (hinput.trans hsame), by omega, by omega⟩
  | case3 c hend hsome =>
    have hskip := c.skipBlanks_le
    have hpast : ∀ (c : Cursor) (k : Kind), (c.newToken k).2.head.current = c.head.current :=
      fun _ _ => rfl
    have hkeeps : ∀ (c : Cursor) (k : Kind), (c.newToken k).2.input = c.input := fun _ _ => rfl
    rw [hkeeps, hpast]
    rw [past]
    dsimp only
    exact ⟨by rw [longest_input, skipBlanks_input], by omega, by omega⟩

/-- The unexpected characters in front of the next token. -/
def strays (c : Cursor) : List Lexeme := (c.next.2.log.drop c.log.length).map Lexeme.ofReport

/-- The tokens that are still to come, with the unexpected characters in front of each, and the
token of the end. -/
def drain (c : Cursor) : List Lexeme × Token :=
  if c.next.1.kind = .eof then (c.strays, c.next.1)
  else (c.strays ++ Lexeme.token c.next.1 :: c.next.2.drain.1, c.next.2.drain.2)
termination_by c.input.length - c.head.current
decreasing_by
  all_goals
    obtain ⟨hinput, hlt, hpast⟩ := next_lt (by assumption)
    rw [hinput]
    omega

end Cursor

def Lexer.read (l : Lexer) (text : Text) : List Lexeme × Token := (l.reset text).drain

def Lexer.tokenize (l : Lexer) (text : Text) : List Token × List Problem :=
  ((l.read text).1.filterMap Lexeme.token?, (l.read text).1.filterMap Lexeme.problem?)

end Formulary.Lexical
