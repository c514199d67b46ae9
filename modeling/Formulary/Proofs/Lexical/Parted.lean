import Formulary.Proofs.Lexical.Pointed

/-!
# Parentheses between tokens

A parenthesis ends whatever token stands before it. So where a token ends within some characters, it
is still the token at their front when a parenthesis takes the place of what follows them. Scanners
of names and numbers are stopped by a parenthesis, and those of quoted tokens look at nothing behind
the closing quote.
-/

namespace Formulary

open Text (Glyph closing)

namespace Lexical

def isParen (c : Nat) : Bool := c == 0x28 || c == 0x29

/-- A scanner that a parenthesis stops as well as anything else that it does not go beyond. -/
def Parted (s : Scanner) : Prop :=
  ∀ (a b x : List Glyph) (q : Glyph), isParen q.code = true →
    s (a ++ q :: x) = s (a ++ b) ∨ ∃ m, s (a ++ b) = some m ∧ a.length < m

def Unparen (p : Nat → Bool) : Prop := ∀ c, isParen c = true → p c = false

theorem unparen_iff {p : Nat → Bool} : Unparen p ↔ p 0x28 = false ∧ p 0x29 = false := by
  constructor
  · intro h
    exact ⟨h _ rfl, h _ rfl⟩
  · rintro ⟨hopen, hclose⟩ c hc
    simp only [isParen, Bool.or_eq_true, beq_iff_eq] at hc
    rcases hc with rfl | rfl
    · exact hopen
    · exact hclose

section Combinators

variable {p : Nat → Bool} {s t : Scanner}

/-- A parenthesis ends a run. -/
theorem run_paren (hp : Unparen p) (a b x : List Glyph) {q : Glyph} (hq : isParen q.code = true) :
    run p (a ++ q :: x) = min (run p (a ++ b)) a.length := by
  induction a with
  | nil =>
    have hstop : run p (q :: x) = 0 := if_neg (by rw [hp _ hq]; exact Bool.false_ne_true)
    rw [List.nil_append, hstop, List.length_nil, Nat.min_zero]
  | cons g a ih =>
    rw [List.cons_append, List.cons_append, run, run, List.length_cons]
    split
    · omega
    · rw [Nat.zero_min]

theorem parted_one (hp : Unparen p) : Parted (one p) := by
  intro a b x q hq
  cases a with
  | nil =>
    have hstop : one p (q :: x) = none := if_neg (by rw [hp _ hq]; exact Bool.false_ne_true)
    cases hb : one p b with
    | none => exact .inl (hstop.trans hb.symm)
    | some n =>
      obtain ⟨-, -, -, -, rfl⟩ := exists_of_one hb
      exact .inr ⟨1, hb, Nat.zero_lt_one⟩
  | cons g a => exact .inl rfl

theorem parted_many (hp : Unparen p) : Parted (many p) := by
  intro a b x q hq
  have hrun := run_paren hp a b x hq
  rcases Nat.lt_or_ge a.length (run p (a ++ b)) with h | h
  · exact .inr ⟨_, rfl, h⟩
  · rw [Nat.min_eq_left h] at hrun
    exact .inl (congrArg some hrun)

theorem parted_many1 (hp : Unparen p) : Parted (many1 p) := by
  intro a b x q hq
  have hrun := run_paren hp a b x hq
  rcases Nat.lt_or_ge a.length (run p (a ++ b)) with h | h
  · refine .inr ⟨_, if_neg ?_, h⟩
    rw [beq_iff_eq]
    omega
  · rw [Nat.min_eq_left h] at hrun
    exact .inl (by rw [many1, hrun, many1])

theorem parted_upTo (hp : Unparen p) (m : Nat) : Parted (upTo p m) := by
  intro a b x q hq
  rcases Nat.lt_or_ge a.length m with h | h
  · obtain ⟨k, rfl⟩ := Nat.exists_eq_add_of_lt h
    have hq' : (a ++ q :: x).take (a.length + k + 1) = a ++ q :: x.take k := by
      rw [Nat.add_assoc, List.take_length_add_append, List.take_succ_cons]
    have hb : (a ++ b).take (a.length + k + 1) = a ++ b.take (k + 1) := by
      rw [Nat.add_assoc, List.take_length_add_append]
    simp only [upTo, hq', hb]
    exact parted_many hp a _ _ q hq
  · exact .inl (by rw [upTo, List.take_append_of_le_length h, upTo,
      List.take_append_of_le_length h])

theorem parted_either (hs : Parted s) (ht : Parted t) : Parted (either s t) := by
  intro a b x q hq
  rcases hs a b x q hq with h | ⟨m, h, hm⟩
  · simp only [either, h]
    cases s (a ++ b) with
    | some n => exact .inl rfl
    | none => simpa using ht a b x q hq
  · exact .inr ⟨m, by rw [either, h]; rfl, hm⟩

theorem parted_optional (hs : Parted s) : Parted (optional s) := by
  intro a b x q hq
  rcases hs a b x q hq with h | ⟨m, h, hm⟩
  · exact .inl (by rw [optional, h, optional])
  · exact .inr ⟨m, by rw [optional, h]; rfl, hm⟩

/-- Behind a first part that ends within some characters it is the rest of them that counts. -/
theorem Parted.behind (ht : Parted t) {a b x : List Glyph} {q : Glyph}
    (hq : isParen q.code = true) {n : Nat}
    (hn : n ≤ a.length) (h : s (a ++ q :: x) = some n) (h' : s (a ++ b) = some n) :
    both s t (a ++ q :: x) = both s t (a ++ b) ∨ ∃ m, both s t (a ++ b) = some m ∧
      a.length < m := by
  simp only [both, h, h', Option.bind_some, List.drop_append_of_le_length hn]
  rcases ht (a.drop n) b x q hq with h | ⟨m, h, hm⟩
  · exact .inl (by rw [h])
  · refine .inr ⟨n + m, by rw [h]; rfl, ?_⟩
    rw [List.length_drop] at hm
    omega

/-- A second part that is always there. -/
theorem parted_both_total (hs : Parted s) (ht : Parted t) (htotal : ∀ gs, t gs ≠ none) :
    Parted (both s t) := by
  intro a b x q hq
  have hbeyond : ∀ {n : Nat}, s (a ++ b) = some n → a.length < n →
      ∃ m, both s t (a ++ b) = some m ∧ a.length < m := by
    intro n h hn
    obtain ⟨k, hk⟩ := Option.ne_none_iff_exists'.1 (htotal ((a ++ b).drop n))
    exact ⟨n + k, by simp only [both, h, Option.bind_some, hk, Option.map_some], by omega⟩
  rcases hs a b x q hq with h | ⟨n, h, hn⟩
  · cases hfirst : s (a ++ b) with
    | none => exact .inl (by simp only [both, h, hfirst, Option.bind_none])
    | some n =>
      rcases Nat.lt_or_ge a.length n with hn | hn
      · exact .inr (hbeyond hfirst hn)
      · exact ht.behind hq hn (h.trans hfirst) hfirst
  · exact .inr (hbeyond h hn)

/-- A first part that one character decides on, where the whole takes something and no
parenthesis. -/
theorem parted_both_head (hs : ∀ g a b, s (g :: a) = s (g :: b))
    (hle : ∀ g a n, s (g :: a) = some n → n ≤ 1)
    (ht : Parted t) (hstop : ∀ q x, isParen q.code = true → both s t (q :: x) = none)
    (hpos : ∀ gs n, both s t gs = some n → 0 < n) : Parted (both s t) := by
  intro a b x q hq
  cases a with
  | nil =>
    rw [List.nil_append, List.nil_append, hstop q x hq, List.length_nil]
    cases hb : both s t b with
    | none => exact .inl rfl
    | some n => exact .inr ⟨n, rfl, hpos b n hb⟩
  | cons g a =>
    have hfirst : s (g :: a ++ q :: x) = s (g :: a ++ b) := hs g _ _
    cases h : s (g :: a ++ b) with
    | none => exact .inl (by simp only [both, hfirst, h, Option.bind_none])
    | some n =>
      have hn : n ≤ (g :: a).length := Nat.le_trans (hle g _ n h) (Nat.succ_le_succ (Nat.zero_le _))
      exact ht.behind hq hn (hfirst.trans h) h

theorem one_paren (hp : Unparen p) {q : Glyph} (hq : isParen q.code = true) (x : List Glyph) :
    one p (q :: x) = none :=
  if_neg (by rw [hp _ hq]; exact Bool.false_ne_true)

theorem both_one_paren (hp : Unparen p) {q : Glyph} (hq : isParen q.code = true) (x : List Glyph) :
    both (one p) t (q :: x) = none := by
  rw [both, one_paren hp hq]
  rfl

theorem both_one_pos {gs : List Glyph} {n : Nat} (h : both (one p) t gs = some n) : 0 < n := by
  obtain ⟨m, hm, h⟩ := Option.bind_eq_some_iff.1 h
  obtain ⟨k, -, rfl⟩ := Option.map_eq_some_iff.1 h
  obtain ⟨-, -, -, -, rfl⟩ := exists_of_one hm
  omega

theorem parted_both_one (hp : Unparen p) (ht : Parted t) : Parted (both (one p) t) := by
  refine parted_both_head (fun _ _ _ => rfl) (fun g a n h => ?_) ht (fun q x hq =>
    both_one_paren hp hq x)
    fun gs n h => both_one_pos h
  obtain ⟨-, -, -, -, rfl⟩ := exists_of_one h
  exact Nat.le_refl 1

/-- An optional character in front of one that has to be there. -/
theorem parted_both_sign {sign : Nat → Bool} (hsign : Unparen sign) (hp : Unparen p)
    (ht : Parted t) :
    Parted (both (optional (one sign)) (both (one p) t)) := by
  refine parted_both_head (fun _ _ _ => rfl) (fun g a n h => ?_) (parted_both_one hp ht)
    (fun q x hq => ?_)
    fun gs n h => ?_
  · cases h
    cases h : one sign (g :: a) with
    | none => exact Nat.zero_le 1
    | some n =>
      obtain ⟨-, -, -, -, rfl⟩ := exists_of_one h
      exact Nat.le_refl 1
  · rw [both, optional, one_paren hsign hq]
    simp only [Option.getD_none, Option.bind_some, List.drop_zero, both_one_paren hp hq,
      Option.map_none]
  · obtain ⟨m, -, h⟩ := Option.bind_eq_some_iff.1 h
    obtain ⟨k, hk, rfl⟩ := Option.map_eq_some_iff.1 h
    have := both_one_pos hk
    omega

theorem parted_nothing : Parted fun _ => some 0 := fun _ _ _ _ _ => .inl rfl

end Combinators

section Unquoted

theorem optional_ne_none (s : Scanner) (gs : List Glyph) : optional s gs ≠ none := nofun

theorem unparen_isAsciiDigit : Unparen Text.isAsciiDigit := unparen_iff.2 ⟨rfl, rfl⟩

theorem parted_integerSuffix : Parted integerSuffix := by
  have hu : Unparen (isEither 'u') := unparen_iff.2 ⟨rfl, rfl⟩
  have hl : Unparen (isEither 'l') := unparen_iff.2 ⟨rfl, rfl⟩
  exact parted_optional (parted_either (parted_both_one hu (parted_optional (parted_one hl)))
    (parted_both_one hl (parted_optional (parted_one hu))))

theorem unparen_realSuffix : Unparen fun c => isEither 'd' c || isEither 'f' c || isEither 'm' c :=
  unparen_iff.2 ⟨rfl, rfl⟩

theorem unparen_exponent : Unparen (isEither 'e') := unparen_iff.2 ⟨rfl, rfl⟩

theorem parted_exponent : Parted exponent :=
  parted_both_one unparen_exponent (parted_both_sign (unparen_iff.2 ⟨rfl, rfl⟩) unparen_isAsciiDigit
    (parted_both_total (parted_upTo unparen_isAsciiDigit 2) parted_nothing nofun))

theorem parted_integer : Parted scanInteger :=
  parted_both_total (parted_many1 unparen_isAsciiDigit) parted_integerSuffix (optional_ne_none _)

theorem parted_hex : Parted scanHex := by
  have hsuffix : Parted (both integerSuffix fun _ => some 0) :=
    parted_both_total parted_integerSuffix parted_nothing nofun
  exact parted_both_one (unparen_iff.2 ⟨rfl, rfl⟩) (parted_both_one (unparen_iff.2 ⟨rfl, rfl⟩)
    (parted_both_total (parted_many1 (unparen_iff.2 ⟨rfl, rfl⟩)) hsuffix nofun))

theorem parted_identifier : Parted scanIdentifier :=
  parted_both_sign (unparen_iff.2 ⟨rfl, rfl⟩) (unparen_iff.2 ⟨rfl, rfl⟩)
    (parted_both_total (parted_many (unparen_iff.2 ⟨rfl, rfl⟩)) parted_nothing nofun)

/-- What follows the digits before the point of a real, if there are so many. -/
def realRest (o : Options) (whole : Nat) : Scanner := fun rest =>
  if (one (· == o.decimalPoint) rest).isSome then
    if whole == 0 && o.requireDigits then none
    else (parts [many1 Text.isAsciiDigit, optional exponent, optional realSuffix] (rest.drop 1)).map
      (1 + ·)
  else if whole == 0 then none
  else either (both exponent (optional realSuffix)) realSuffix rest

variable {o : Options}

theorem scanReal_eq (o : Options) (gs : List Glyph) : scanReal o gs =
    (realRest o (run Text.isAsciiDigit gs) (gs.drop (run Text.isAsciiDigit gs))).map
      (run Text.isAsciiDigit gs + ·) := by
  unfold scanReal realRest
  simp only
  split
  · split
    · rfl
    · rw [Option.map_map]
      exact congrArg (Option.map · _) (funext fun n => Nat.add_assoc _ 1 n)
  · split <;> rfl

theorem exponent_paren {q : Glyph} (hq : isParen q.code = true) (x : List Glyph) :
    exponent (q :: x) = none :=
  both_one_paren unparen_exponent hq x

theorem realRest_paren (hpoint : isParen o.decimalPoint = false) (whole : Nat) {q : Glyph}
    (hq : isParen q.code = true) (x : List Glyph) : realRest o whole (q :: x) = none := by
  have hne : Unparen (· == o.decimalPoint) := by
    intro c hc
    rw [beq_eq_false_iff_ne]
    rintro rfl
    rw [hpoint] at hc
    cases hc
  have hsuffix : realSuffix (q :: x) = none := one_paren unparen_realSuffix hq x
  have hplain : either (both exponent (optional realSuffix)) realSuffix (q :: x) = none := by
    rw [either, both, exponent_paren hq, hsuffix]
    rfl
  rw [realRest, one_paren hne hq, hplain]
  simp

theorem realRest_pos {whole n : Nat} {gs : List Glyph}
    (h : realRest o whole gs = some n) : 0 < n := by
  unfold realRest at h
  split at h
  · split at h
    · cases h
    · obtain ⟨m, -, rfl⟩ := Option.map_eq_some_iff.1 h
      omega
  · split at h
    · cases h
    · rcases Option.or_eq_some_iff.1 h with h | ⟨-, h⟩
      · obtain ⟨m, hm, h⟩ := Option.bind_eq_some_iff.1 h
        obtain ⟨k, -, rfl⟩ := Option.map_eq_some_iff.1 h
        have := exponent_pos hm
        omega
      · obtain ⟨-, -, -, -, rfl⟩ := exists_of_one h
        exact Nat.zero_lt_one

theorem parted_realRest (hpoint : isParen o.decimalPoint = false) (whole : Nat) :
    Parted (realRest o whole) := by
  have hending : Parted (optional realSuffix) := parted_optional (parted_one unparen_realSuffix)
  have hfraction :
      Parted (parts [many1 Text.isAsciiDigit, optional exponent, optional realSuffix]) :=
    parted_both_total (parted_many1 unparen_isAsciiDigit)
      (parted_both_total (parted_optional parted_exponent)
      (parted_both_total hending parted_nothing nofun) nofun) nofun
  have hplain : Parted (either (both exponent (optional realSuffix)) realSuffix) :=
    parted_either (parted_both_total parted_exponent hending (optional_ne_none _))
      (parted_one unparen_realSuffix)
  intro a b x q hq
  cases a with
  | nil =>
    rw [List.nil_append, List.nil_append, realRest_paren hpoint whole hq]
    cases hb : realRest o whole b with
    | none => exact .inl rfl
    | some n => exact .inr ⟨n, rfl, realRest_pos hb⟩
  | cons g a =>
    -- The first character says whether there is a point.
    have hhead : ∀ gs, one (· == o.decimalPoint) (g :: gs) = one (· == o.decimalPoint) [g] :=
      fun _ => rfl
    simp only [List.cons_append, realRest, hhead, List.drop_succ_cons, List.drop_zero]
    split
    · split
      · exact .inl rfl
      · refine (hfraction a b x q hq).imp (fun h => by rw [h]) fun ⟨m, h, hm⟩ =>
          ⟨1 + m, by rw [h]; rfl, ?_⟩
        rw [List.length_cons]
        omega
    · split
      · exact .inl rfl
      · exact hplain (g :: a) b x q hq

/-- A parenthesis that is no decimal point stops a real. -/
theorem parted_real (hpoint : isParen o.decimalPoint = false) : Parted (scanReal o) := by
  intro a b x q hq
  have hrun := run_paren unparen_isAsciiDigit a b x hq
  simp only [scanReal_eq]
  generalize run Text.isAsciiDigit (a ++ b) = whole at hrun ⊢
  rcases Nat.lt_or_ge a.length whole with h | h
  · -- The digits go on beyond the parenthesis, before which they are no real.
    rw [Nat.min_eq_right (Nat.le_of_lt h)] at hrun
    rw [hrun, List.drop_left, realRest_paren hpoint _ hq]
    cases hb : realRest o whole ((a ++ b).drop whole) with
    | none => exact .inl rfl
    | some n => exact .inr ⟨whole + n, rfl, by omega⟩
  · rw [Nat.min_eq_left h] at hrun
    rw [hrun, List.drop_append_of_le_length h, List.drop_append_of_le_length h]
    refine (parted_realRest hpoint whole (a.drop whole) b x q hq).imp (fun h => by rw [h]) ?_
    rintro ⟨m, hm, hlt⟩
    refine ⟨whole + m, by rw [hm]; rfl, ?_⟩
    rw [List.length_drop] at hlt
    omega

end Unquoted

section Quoted

variable {p : Nat → Bool} {s t u : Scanner}

/-- A scanner that does not look behind what it takes. -/
def Sealed (s : Scanner) : Prop :=
  ∀ (a b c : List Glyph) (n : Nat), s (a ++ b) = some n → n ≤ a.length → s (a ++ c) = some n

def Positive (s : Scanner) : Prop := ∀ gs n, s gs = some n → 0 < n

theorem sealed_one (p : Nat → Bool) : Sealed (one p) := by
  intro a b c n h hn
  obtain ⟨-, -, -, -, rfl⟩ := exists_of_one h
  obtain ⟨g, a, rfl⟩ := List.exists_cons_of_length_pos hn
  exact h

theorem sealed_exactly (p : Nat → Bool) (m : Nat) : Sealed (exactly p m) := by
  intro a b c n h hn
  simp only [exactly] at h ⊢
  split at h
  · rename_i hrun
    cases h
    rw [List.take_append_of_le_length hn] at hrun ⊢
    rw [if_pos hrun]
  · cases h

theorem sealed_nothing : Sealed fun _ => some 0 := fun _ _ _ _ h _ => h

theorem both_eq_some {gs : List Glyph} {n : Nat} :
    both s t gs = some n ↔ ∃ k m, s gs = some k ∧ t (gs.drop k) = some m ∧ n = k + m := by
  simp only [both, Option.bind_eq_some_iff, Option.map_eq_some_iff]
  constructor
  · rintro ⟨k, hk, m, hm, rfl⟩
    exact ⟨k, m, hk, hm, rfl⟩
  · rintro ⟨k, m, hk, hm, rfl⟩
    exact ⟨k, hk, m, hm, rfl⟩

theorem sealed_both (hs : Sealed s) (ht : Sealed t) : Sealed (both s t) := by
  intro a b c n h hn
  obtain ⟨k, m, hk, hm, rfl⟩ := both_eq_some.1 h
  have hle : k ≤ a.length := by omega
  rw [List.drop_append_of_le_length hle] at hm
  refine both_eq_some.2 ⟨k, m, hs a b c k hk hle, ?_, rfl⟩
  rw [List.drop_append_of_le_length hle]
  exact ht _ b c m hm (by rw [List.length_drop]; omega)

theorem sealed_either (hs : Sealed s) (ht : Sealed t)
    (hapart : ∀ gs n, t gs = some n → s gs = none) :
    Sealed (either s t) := by
  intro a b c n h hn
  rcases Option.or_eq_some_iff.1 h with h | ⟨-, h⟩
  · rw [either, hs a b c n h hn]
    rfl
  · have ht' := ht a b c n h hn
    rw [either, hapart _ n ht', ht']
    rfl

theorem run_sealed {a b : List Glyph} (h : run p (a ++ b) < a.length) (c : List Glyph) :
    run p (a ++ c) = run p (a ++ b) := by
  induction a with
  | nil => exact absurd h (Nat.not_lt_zero _)
  | cons g a ih =>
    simp only [List.cons_append, run, List.length_cons] at h ⊢
    split
    · rename_i hg
      rw [if_pos hg] at h
      rw [ih (by omega)]
    · rfl

/-- What follows a run shows where it ends. -/
theorem sealed_both_many1 (ht : Sealed t) (hpos : Positive t) : Sealed (both (many1 p) t) := by
  intro a b c n h hn
  obtain ⟨k, m, hk, hm, rfl⟩ := both_eq_some.1 h
  have := hpos _ m hm
  simp only [many1] at hk
  split at hk
  · cases hk
  · rename_i hne
    cases hk
    rw [List.drop_append_of_le_length (by omega)] at hm
    have hrun : run p (a ++ c) = run p (a ++ b) := run_sealed (by omega) c
    refine both_eq_some.2 ⟨_, m, if_neg (hrun ▸ hne), ?_, by rw [hrun]⟩
    rw [hrun, List.drop_append_of_le_length (by omega)]
    exact ht _ b c m hm (by rw [List.length_drop]; omega)

theorem sealed_both_upTo {most : Nat} (ht : Sealed t) (hpos : Positive t) :
    Sealed (both (upTo p most) t) := by
  intro a b c n h hn
  obtain ⟨k, m, hk, hm, rfl⟩ := both_eq_some.1 h
  have := hpos _ m hm
  cases hk
  have hrun : run p ((a ++ c).take most) = run p ((a ++ b).take most) := by
    rcases Nat.lt_or_ge a.length most with hmost | hmost
    · obtain ⟨k, rfl⟩ := Nat.exists_eq_add_of_le (Nat.le_of_lt hmost)
      rw [List.take_length_add_append] at hm hn ⊢
      rw [List.take_length_add_append]
      exact run_sealed (by omega) _
    · rw [List.take_append_of_le_length hmost, List.take_append_of_le_length hmost]
  rw [List.drop_append_of_le_length (by omega)] at hm
  refine both_eq_some.2 ⟨_, m, congrArg some hrun, ?_, rfl⟩
  rw [List.drop_append_of_le_length (by omega)]
  exact ht _ b c m hm (by rw [List.length_drop]; omega)

/-- An optional first part, which is not there where the second one stands. -/
theorem sealed_both_optional (hboth : Sealed (both s t)) (ht : Sealed t)
    (hapart : ∀ gs n, t gs = some n → s gs = none) :
    Sealed (both (optional s) t) := by
  have hpresent : ∀ {gs : List Glyph} {k : Nat}, s gs = some k →
    both (optional s) t gs = both s t gs := fun h => by
    rw [both, optional, both, h]
    rfl
  have habsent : ∀ {gs : List Glyph}, s gs = none → both (optional s) t gs = t gs :=
    fun {gs} h => by
    rw [both, optional, h]
    cases ht : t gs <;> simp [ht]
  intro a b c n h hn
  cases hs : s (a ++ b) with
  | some k =>
    rw [hpresent hs] at h
    have hc := hboth a b c n h hn
    obtain ⟨k', -, hk', -⟩ := both_eq_some.1 hc
    rw [hpresent hk', hc]
  | none =>
    rw [habsent hs] at h
    have hc := ht a b c n h hn
    rw [habsent (hapart _ n hc), hc]

theorem both_assoc (s t u : Scanner) : both (both s t) u = both s (both t u) := by
  funext gs
  simp only [both]
  cases s gs with
  | none => rfl
  | some k =>
    simp only [Option.bind_some]
    cases t (gs.drop k) with
    | none => rfl
    | some m =>
      simp only [Option.map_some, Option.bind_some, List.drop_drop, Option.map_map]
      exact congrArg (Option.map · _) (funext fun n => Nat.add_assoc k m n)

theorem nothing_both (t : Scanner) : both (fun _ => some 0) t = t := by
  funext gs
  cases h : t gs <;> simp [both, h]

/-- Which character a token starts with. -/
theorem exists_of_both_one {gs : List Glyph} {n : Nat} (h : both (one p) t gs = some n) :
    ∃ g rest m, gs = g :: rest ∧ p g.code = true ∧ t rest = some m ∧ n = 1 + m := by
  obtain ⟨k, m, hk, hm, rfl⟩ := both_eq_some.1 h
  obtain ⟨g, rest, rfl, hg, rfl⟩ := exists_of_one hk
  exact ⟨g, rest, m, rfl, hg, hm, rfl⟩

theorem positive_both_one : Positive (both (one p) t) := fun _ _ h => both_one_pos h

/-- Two tokens that start with different characters. -/
theorem both_one_apart {q : Nat → Bool} (hpq : ∀ c, q c = true → p c = false)
    (gs : List Glyph) (n : Nat)
    (h : both (one q) u gs = some n) : both (one p) t gs = none := by
  obtain ⟨g, rest, -, rfl, hg, -⟩ := exists_of_both_one h
  have hnone : one p (g :: rest) = none := if_neg (by rw [hpq _ hg]; exact Bool.false_ne_true)
  rw [both, hnone]
  rfl

theorem sealed_escape : Sealed escape := by
  refine sealed_either (sealed_one _) (sealed_both (sealed_one _) (sealed_exactly _ _))
    fun gs n h => ?_
  obtain ⟨g, rest, -, rfl, hg, -⟩ := exists_of_both_one h
  simp only [isEither, Bool.or_eq_true, beq_iff_eq] at hg
  have hcode : g.code = 0x75 ∨ g.code = 0x55 := hg
  rcases hcode with h | h <;> simp [one, h]

theorem skip_lt_of_stringBody {skip n : Nat} {gs : List Glyph}
    (h : stringBody skip gs = some n) : skip < n := by
  induction gs generalizing skip n with
  | nil => cases skip <;> cases h
  | cons g gs ih =>
    cases skip with
    | succ k =>
      obtain ⟨m, hm, rfl⟩ := Option.map_eq_some_iff.1 h
      exact Nat.succ_lt_succ (ih hm)
    | zero =>
      simp only [stringBody] at h
      split at h
      · cases h
        exact Nat.zero_lt_one
      · split at h
        · split at h
          · obtain ⟨m, -, rfl⟩ := Option.map_eq_some_iff.1 h
            exact Nat.succ_pos m
          · cases h
        · split at h
          · cases h
          · obtain ⟨m, -, rfl⟩ := Option.map_eq_some_iff.1 h
            exact Nat.succ_pos m

theorem sealed_stringBody (skip : Nat) : Sealed (stringBody skip) := by
  intro a b c n h hn
  induction a generalizing skip n with
  | nil =>
    have := skip_lt_of_stringBody h
    rw [List.length_nil] at hn
    omega
  | cons g a ih =>
    have hmap : ∀ {skip : Nat}, (stringBody skip (a ++ b)).map (· + 1) = some n →
        (stringBody skip (a ++ c)).map (· + 1) = some n := by
      intro skip h
      obtain ⟨m, hm, rfl⟩ := Option.map_eq_some_iff.1 h
      rw [ih skip m hm (Nat.le_of_succ_le_succ hn)]
      rfl
    cases skip with
    | succ k => exact hmap h
    | zero =>
      simp only [List.cons_append, stringBody] at h ⊢
      split at h
      · rename_i hquote
        rw [if_pos hquote, h]
      · rename_i hquote
        rw [if_neg hquote]
        split at h
        · rename_i hslash
          rw [if_pos hslash]
          split at h
          · -- The escape ends within the characters, since the string goes on behind it.
            rename_i k hk
            obtain ⟨m, hm, rfl⟩ := Option.map_eq_some_iff.1 h
            have hlt := skip_lt_of_stringBody hm
            have hle : k ≤ a.length := by
              rw [List.length_cons] at hn
              omega
            simp only [sealed_escape a b c k hk hle]
            exact hmap h
          · cases h
        · rename_i hslash
          rw [if_neg hslash]
          split at h
          · cases h
          · rename_i hend
            rw [if_neg hend]
            exact hmap h

theorem sealed_string : Sealed scanString := sealed_both (sealed_one _) (sealed_stringBody 0)

theorem sealed_char : Sealed scanChar := by
  refine sealed_both (sealed_one _) (sealed_both ?_ (sealed_both (sealed_one _) sealed_nothing))
  refine sealed_either (sealed_both (sealed_one _) sealed_escape) (sealed_one _) fun gs n h => ?_
  obtain ⟨g, rest, rfl, hg, -⟩ := exists_of_one h
  have hne : g.code ≠ 0x5C := by
    rintro heq
    simp [heq] at hg
  have hnone : mark '\\' (g :: rest) = none := if_neg (by simpa using hne)
  rw [both, hnone]
  rfl

theorem sealed_dateTime : Sealed scanDateTime :=
  sealed_both (sealed_one _) (sealed_both_many1 (sealed_both (sealed_one _) sealed_nothing)
    positive_both_one)

theorem run_of_take {k : Nat} {gs rest : List Glyph} {g : Glyph} (h : run p (gs.take k) = k)
    (hrest : gs.drop k = g :: rest) (hg : p g.code = false) : run p gs = k := by
  induction k generalizing gs with
  | zero =>
    rw [List.drop_zero] at hrest
    rw [hrest]
    exact if_neg (by rw [hg]; exact Bool.false_ne_true)
  | succ k ih =>
    cases gs with
    | nil => cases hrest
    | cons x gs =>
      rw [List.take_succ_cons, run] at h
      rw [run]
      split at h
      · rename_i hx
        rw [if_pos hx, ih (Nat.succ.inj h) hrest]
      · cases h

/-- A time span ends with a number sign, and none of its optional parts starts with what stands
behind it. -/
theorem sealed_timeSpan : Sealed scanTimeSpan := by
  have hend : Sealed (both (mark '#') fun _ => some 0) := sealed_both (sealed_one _) sealed_nothing
  have hfraction :
    Sealed (both (optional (parts [mark '.', one Text.isAsciiDigit, upTo Text.isAsciiDigit 6]))
      (both (mark '#') fun _ => some 0)) := by
    refine sealed_both_optional ?_ hend (both_one_apart (by simp +contextual))
    simp only [parts, List.foldr, both_assoc, nothing_both]
    exact sealed_both (sealed_one _) (sealed_both (sealed_one _)
      (sealed_both_upTo hend positive_both_one))
  have hseconds : Sealed (both (optional (parts [mark ':', exactly Text.isAsciiDigit 2,
      optional (parts [mark '.', one Text.isAsciiDigit, upTo Text.isAsciiDigit 6])]))
        (both (mark '#') fun _ => some 0)) := by
    refine sealed_both_optional ?_ hend (both_one_apart (by simp +contextual))
    simp only [parts, List.foldr, both_assoc, nothing_both] at hfraction ⊢
    exact sealed_both (sealed_one _) (sealed_both (sealed_exactly _ 2) hfraction)
  have htime := sealed_both (sealed_exactly Text.isAsciiDigit 2)
    (sealed_both (sealed_one (· == ':'.toNat))
    (sealed_both (sealed_exactly Text.isAsciiDigit 2) hseconds))
  refine sealed_both (sealed_one _) (sealed_both (sealed_one _)
    (sealed_both_optional ?_ htime fun gs n h => ?_))
  · rw [both_assoc]
    exact sealed_both_many1 (sealed_both (sealed_one _) htime) positive_both_one
  · -- Two digits and a colon are no digits and a point.
    obtain ⟨k, m, hk, hm, -⟩ := both_eq_some.1 h
    obtain ⟨g, rest, -, hrest, hg, -⟩ := exists_of_both_one hm
    have hcolon : g.code = 0x3A := by simpa using hg
    simp only [exactly] at hk
    split at hk
    · rename_i hdigits
      cases hk
      have hrun : run Text.isAsciiDigit gs = 2 :=
        run_of_take (beq_iff_eq.1 hdigits) hrest (by rw [hcolon]; rfl)
      simp [both, many1, hrun, hrest, mark, one, hcolon]
    · cases hk

end Quoted

end Lexical

end Formulary
