import Formulary.Library.Dates
import Formulary.Proofs.Calendar.Dates
import Formulary.Proofs.Value.Whole
import Mathlib.Order.Bounds.Basic

/-!
# Moving dates and measuring them

Units of the clock and days have a fixed length, so that adding some of them and measuring the
difference are inverse to each other as long as the span fits 64 bits (`difference_add`). Months and
years have not: a month counts as completed by the days of the two dates alone, when the later date
comes last, and not at all when it comes first (`difference_months`).
-/

namespace Formulary.Library.Dates

open Calendar
open Calendar.Moment (dayNanos)

variable {t a b : Moment} {n k : Int} {u : TimeUnit}

section Fixed

/-- A number of units whose nanoseconds fit 64 bits. -/
def Fits (n : Int) (u : TimeUnit) : Prop := IntKind.long.holds (n * u.nanos) = true

instance (n : Int) (u : TimeUnit) : Decidable (Fits n u) := inferInstanceAs (Decidable (_ = true))

theorem holds_long_iff : IntKind.long.holds n = true ↔ -9223372036854775808 ≤ n ∧
    n ≤ 9223372036854775807 :=
  IntKind.holds_iff

theorem nanos_pos (u : TimeUnit) : 0 < u.nanos := by
  cases u <;> decide

/-- The whole units of a span that fits are units that fit. -/
theorem fits_tdiv {w : Int} (hw : IntKind.long.holds w = true) (u : TimeUnit) :
    Fits (w.tdiv u.nanos) u := by
  have hsplit := Int.tdiv_mul_add_tmod w u.nanos
  rw [Fits, holds_long_iff] at *
  rcases Int.le_total 0 w with hsign | hsign
  · have hunits := Int.mul_nonneg (Int.tdiv_nonneg hsign (nanos_pos u).le) (nanos_pos u).le
    have hrest := Int.tmod_nonneg u.nanos hsign
    omega
  · have hunits := Int.mul_nonneg (Int.tdiv_nonneg (Int.neg_nonneg_of_nonpos hsign)
      (nanos_pos u).le) (nanos_pos u).le
    have hrest := Int.tmod_nonneg u.nanos (Int.neg_nonneg_of_nonpos hsign)
    rw [Int.neg_tdiv, Int.neg_mul] at hunits
    rw [Int.neg_tmod] at hrest
    omega

/-- A difference is kept within 64 bits, so that one that fits is left as it is. -/
theorem holds_sub (a b : Moment) : IntKind.long.holds (a.sub b) = true := by
  rw [holds_long_iff, Moment.sub]
  omega

theorem sub_eq (h : IntKind.long.holds (a.total - b.total) = true) :
    a.sub b = a.total - b.total := by
  rw [holds_long_iff] at h
  rw [Moment.sub]
  omega

theorem total_add_day (t : Moment) (n : Int) :
    (add t n .day).total = t.total + n * TimeUnit.nanos .day := by
  simp only [add, Moment.total_addDate, t.total_eq, TimeUnit.nanos, dayNanos, second,
    Int.mul_zero, Int.add_zero]
  omega

/-- A span of the clock is added modulo 2⁶⁴. -/
theorem total_add_clock (t : Moment) (n : Int) (hu : u ≠ .year ∧ u ≠ .month ∧ u ≠ .day) :
    (add t n u).total = t.total + IntKind.long.wrap (n * u.nanos) := by
  cases u with
  | year => exact absurd rfl hu.1
  | month => exact absurd rfl hu.2.1
  | day => exact absurd rfl hu.2.2
  | _ => simp only [add, Moment.add, Moment.total_ofTotal]

@[simp] theorem zone_add (t : Moment) (n : Int) (u : TimeUnit) : (add t n u).zone = t.zone := by
  cases u <;> simp only [add, Moment.zone_addDate, Moment.add, Moment.zone_ofTotal]

theorem difference_fixed (hu : u ≠ .year ∧ u ≠ .month) :
    difference a b u = (b.sub a).tdiv u.nanos := by
  cases u with
  | year => exact absurd rfl hu.1
  | month => exact absurd rfl hu.2
  | _ => rfl

theorem ofTotal_total_add (t : Moment) (n : Int) (u : TimeUnit) :
    .ofTotal (add t n u).total t.zone = add t n u := by
  cases u <;> simp only [add, Moment.addDate, Moment.ofFields, Moment.add, Moment.total_ofTotal]

/-- Some units are added exactly if they are days or fit 64 bits. -/
theorem add_iff (t : Moment) (n : Int) (hu : u ≠ .year ∧ u ≠ .month) :
    add t n u = .ofTotal (t.total + n * u.nanos) t.zone ↔ u = .day ∨ Fits n u := by
  have htotal : add t n u = .ofTotal (t.total + n * u.nanos) t.zone ↔
      (add t n u).total = t.total + n * u.nanos := by
    refine ⟨fun h => by rw [h, Moment.total_ofTotal], fun h => ?_⟩
    rw [← h, ofTotal_total_add]
  rw [htotal]
  by_cases hday : u = .day
  · subst hday
    simp [total_add_day]
  · rw [total_add_clock t n ⟨hu.1, hu.2, hday⟩, Int.add_right_inj, IntKind.wrap_eq_self]
    simp [hday, Fits]

/-- Seconds and milliseconds of 32 bits always fit. -/
theorem fits_short (hn : IntKind.int.holds n = true)
    (hu : u = .second ∨ u = .millisecond) : Fits n u := by
  have hbounds : -2147483648 ≤ n ∧ n ≤ 2147483647 := IntKind.holds_iff.1 hn
  rw [Fits, holds_long_iff]
  rcases hu with rfl | rfl <;> simp only [TimeUnit.nanos, second] <;> omega

/-- Days and units of the clock are added exactly, as long as their span fits 64 bits, and the
difference gives them back. A span that does not fit is added modulo 2⁶⁴ unless it is made of days,
and the difference is another one. Seconds and milliseconds of 32 bits always fit. -/
theorem difference_add (t : Moment) {n : Int} (hn : IntKind.int.holds n = true)
    (hu : u ≠ .year ∧ u ≠ .month) :
    (add t n u = .ofTotal (t.total + n * u.nanos) t.zone ↔ u = .day ∨ Fits n u) ∧
      (difference t (add t n u) u = n ↔ Fits n u) ∧
        (u = .second ∨ u = .millisecond → Fits n u) := by
  refine ⟨add_iff t n hu, ⟨fun h => ?_, fun h => ?_⟩, fits_short hn⟩
  · rw [difference_fixed hu] at h
    exact h ▸ fits_tdiv (holds_sub _ _) u
  · have hspan : (add t n u).total - t.total = n * u.nanos := by
      rw [(add_iff t n hu).2 (.inr h), Moment.total_ofTotal]
      omega
    rw [difference_fixed hu, sub_eq (hspan ▸ h), hspan, Int.mul_tdiv_cancel _ (nanos_pos u).ne']

/-- The start of the year 2000. -/
def millennium : Moment := .ofFields 2000 1 1 0 0 0 0 .utc

/-- A year of hours, backward. -/
theorem difference_add_hours : IntKind.int.holds (-8760) = true ∧
    add millennium (-8760) .hour = .ofFields 1999 1 1 0 0 0 0 .utc ∧
    difference millennium (add millennium (-8760) .hour) .hour = -8760 := by
  have hfits : Fits (-8760) .hour := by decide
  obtain ⟨hadd, hdifference, -⟩ := difference_add millennium (n := -8760) (u := .hour)
    (by decide) (by decide)
  exact ⟨by decide, (hadd.2 (.inr hfits)).trans (by decide), hdifference.2 hfits⟩

/-- Some more hours than fit 64 bits lead back by centuries, and the difference of as many days
stops short. -/
theorem difference_add_wraps : IntKind.int.holds 2562048 = true ∧
    add millennium 2562048 .hour ≠ .ofTotal (millennium.total + 2562048 * TimeUnit.nanos .hour)
      .utc ∧
      difference millennium (add millennium 2562048 .hour) .hour ≠ 2562048 ∧
      difference millennium (add millennium 106752 .day) .day ≠ 106752 := by
  decide

end Fixed

section Months

/-- The months of a unit that has no fixed length. -/
def months : TimeUnit → Int
  | .year => 12
  | _ => 1

/-- Whether a moment with some months added to its date is not after another one, both in universal
time. -/
def Reaches (a b : Moment) (k : Int) : Prop :=
  (monthStart (a.monthNumber + k) + (a.day - 1)) * dayNanos + a.clock ≤
    (monthStart b.monthNumber + (b.day - 1)) * dayNanos + b.clock

/-- The day and the clock of one moment have come round by another: in the month of the other, or,
if the day is still to come there, in the month before. A day that a month does not have falls into
the next one. -/
def ComesRound (a b : Moment) : Prop :=
  a.day * dayNanos + a.clock ≤
    (b.day + if b.day < a.day then monthStart b.monthNumber - monthStart (b.monthNumber - 1)
      else 0) * dayNanos + b.clock

instance (a b : Moment) : Decidable (ComesRound a b) := inferInstanceAs (Decidable (_ ≤ _))

theorem months_pos (u : TimeUnit) : 0 < months u := by
  cases u <;> decide

theorem add_le_iff (ha : a.zone = .utc) (hb : b.zone = .utc) (k : Int)
    (hu : u = .year ∨ u = .month) :
    (add a k u).total ≤ b.total ↔ Reaches a b (k * months u) := by
  have hyears : a.monthNumber + 12 * k + 0 = a.monthNumber + k * 12 := by omega
  have hmonths : a.monthNumber + 12 * 0 + k = a.monthNumber + k * 1 := by omega
  rw [b.total_eq, hb, Reaches]
  rcases hu with rfl | rfl <;>
    simp only [add, Moment.total_addDate, ha, months, hyears, hmonths, Zone.offset,
      Int.add_zero] <;> omega

theorem le_iff_reaches (ha : a.zone = .utc) (hb : b.zone = .utc) : a.total ≤ b.total ↔
    Reaches a b 0 := by
  rw [a.total_eq, b.total_eq, ha, hb, Reaches, Int.add_zero]
  simp only [Zone.offset]
  omega

theorem difference_eq_tdiv (a b : Moment) (hu : u = .year ∨ u = .month) :
    difference a b u = (monthsBetween a b).tdiv (months u) := by
  rcases hu with rfl | rfl
  · rfl
  · exact (Int.tdiv_one _).symm

theorem monthsBetween_eq (a b : Moment) :
    monthsBetween a b = if b.day < a.day ∧ 0 < b.monthNumber - a.monthNumber then
      b.monthNumber - a.monthNumber - 1
      else b.monthNumber - a.monthNumber := by
  have htotal : (b.year - a.year) * 12 + ((b.month : Int) - a.month) =
      b.monthNumber - a.monthNumber := by
    simp only [Moment.monthNumber, Date.monthNumber, Moment.year, Moment.month]
    omega
  simp only [monthsBetween, htotal, Bool.and_eq_true, decide_eq_true_eq]

/-- Days with a time of the clock are ordered by the days first. -/
theorem days_le_iff {x y c c' : Int} (hc : 0 ≤ c ∧ c < dayNanos) (hc' : 0 ≤ c' ∧ c' < dayNanos) :
    x * dayNanos + c ≤ y * dayNanos + c' ↔ x < y ∨ x = y ∧ c ≤ c' := by
  simp only [dayNanos, second] at *
  omega

/-- The most units that reach no further than a number of months. All smaller numbers do, and no
larger ones. -/
theorem isGreatest_units {R : Int → Prop} {P : Prop} [Decidable P] {m w : Int} (hw : 0 < w)
    (hless : ∀ k < m, R k) (hmore : ∀ k, R k → k ≤ m) (hP : R m ↔ P) :
    IsGreatest {k | R (k * w)} (if P ∨ ¬w ∣ m then m / w else m / w - 1) := by
  have hmul : m / w * w ≤ m := Int.ediv_mul_le m hw.ne'
  split
  · rename_i h
    refine ⟨?_, fun k hk => Int.le_ediv_of_mul_le hw (hmore _ hk)⟩
    show R (m / w * w)
    by_cases hdvd : w ∣ m
    · rw [Int.ediv_mul_cancel hdvd, hP]
      exact h.resolve_right fun hnot => hnot hdvd
    · exact hless _ (lt_of_le_of_ne hmul fun heq => hdvd ⟨m / w, by rw [mul_comm, heq]⟩)
  · rename_i h
    rw [not_or, not_not] at h
    refine ⟨hless _ ?_, fun k hk => ?_⟩
    · rw [Int.sub_mul, Int.one_mul]
      omega
    · refine Int.le_sub_one_of_lt (lt_of_le_of_ne (Int.le_ediv_of_mul_le hw (hmore _ hk)) ?_)
      rintro rfl
      have hk : R (m / w * w) := hk
      rw [Int.ediv_mul_cancel h.2, hP] at hk
      exact h.1 hk

variable (ha : a.Regular) (hb : b.Regular)

include ha hb

theorem reaches_iff (k : Int) :
    Reaches a b k ↔ monthStart (a.monthNumber + k) + a.day < monthStart b.monthNumber + b.day ∨
      monthStart (a.monthNumber + k) + a.day = monthStart b.monthNumber + b.day ∧
        a.clock ≤ b.clock := by
  rw [Reaches, days_le_iff ⟨a.clock_nonneg, a.clock_lt ha⟩ ⟨b.clock_nonneg, b.clock_lt hb⟩]
  omega

/-- A moment that is not after another has an earlier month, or the same month and no later day. -/
theorem Reaches.months (h : Reaches a b 0) :
    a.monthNumber < b.monthNumber ∨ a.monthNumber = b.monthNumber ∧ a.day ≤ b.day := by
  have hfirst := a.day_pos
  have hlast := b.day_le
  rw [reaches_iff ha hb, Int.add_zero] at h
  rcases lt_trichotomy a.monthNumber b.monthNumber with hlt | heq | hgt
  · exact .inl hlt
  · rw [heq] at h
    exact .inr ⟨heq, by omega⟩
  · have hnext := monthStart_le (show b.monthNumber + 1 ≤ a.monthNumber by omega)
    omega

/-- Of two moments the first one with fewer months added than are counted between them is not after
the second, with more months it is, and with as many it depends on whether the day and the clock
have come round. -/
theorem reaches_monthsBetween (h : Reaches a b 0) :
    0 ≤ monthsBetween a b ∧ (∀ k < monthsBetween a b, Reaches a b k) ∧
      (∀ k, Reaches a b k → k ≤ monthsBetween a b) ∧
      (Reaches a b (monthsBetween a b) ↔ ComesRound a b) := by
  have hmonths := h.months ha hb
  have hlast := a.day_le
  have hlength := monthStart_succ a.monthNumber
  have hfirst := a.day_pos
  have hlast' := b.day_le
  rw [ComesRound, days_le_iff ⟨a.clock_nonneg, a.clock_lt ha⟩ ⟨b.clock_nonneg, b.clock_lt hb⟩,
    monthsBetween_eq]
  simp only [reaches_iff ha hb]
  by_cases hday : b.day < a.day
  · -- The day is still to come in the month of the second moment, so that the first is moved to
    -- the month before.
    have hlt : a.monthNumber < b.monthNumber := by omega
    have hbefore := monthStart_succ (b.monthNumber - 2)
    rw [show b.monthNumber - 2 + 1 = b.monthNumber - 1 by omega] at hbefore
    have hbefore' := monthStart_succ (b.monthNumber - 1)
    rw [Int.sub_add_cancel] at hbefore'
    rw [if_pos ⟨hday, by omega⟩, if_pos hday,
      show a.monthNumber + (b.monthNumber - a.monthNumber - 1) = b.monthNumber - 1 by omega]
    refine ⟨by omega, fun k hk => .inl ?_, fun k hk => ?_, by omega⟩
    · have := monthStart_le (show a.monthNumber + k ≤ b.monthNumber - 2 by omega)
      omega
    · by_contra hmore
      have := monthStart_le (show b.monthNumber ≤ a.monthNumber + k by omega)
      omega
  · have hbefore := monthStart_succ (b.monthNumber - 1)
    rw [Int.sub_add_cancel] at hbefore
    rw [if_neg fun hnot => hday hnot.1, if_neg hday,
      show a.monthNumber + (b.monthNumber - a.monthNumber) = b.monthNumber by omega]
    refine ⟨by omega, fun k hk => .inl ?_, fun k hk => ?_, by omega⟩
    · have := monthStart_le (show a.monthNumber + k ≤ b.monthNumber - 1 by omega)
      omega
    · by_contra hmore
      have := monthStart_le (show b.monthNumber + 1 ≤ a.monthNumber + k by omega)
      omega

omit ha hb

/-- Counted backward, a month counts as soon as it has another number. -/
theorem monthsBetween_swap (h : a.monthNumber ≤ b.monthNumber) :
    monthsBetween b a = a.monthNumber - b.monthNumber := by
  rw [monthsBetween_eq, if_neg fun hnot => by omega]

/-- Between two moments in their order the months or years that are counted are the most that can be
added to the first without passing the second, or one more than that: a count of whole months looks
at the days alone, not at the clock nor at the length of the month that is reached. In the reverse
order the same is counted with a minus sign, or one less: a month begun and not completed counts
then. -/
theorem difference_months (ha : a.Regular) (hb : b.Regular) (hzone : a.zone = .utc)
    (hzone' : b.zone = .utc) (h : a.total ≤ b.total) (hu : u = .year ∨ u = .month) :
    0 ≤ difference a b u ∧
      IsGreatest {k : Int | (add a k u).total ≤ b.total}
        (if ComesRound a b ∨ ¬months u ∣ monthsBetween a b then difference a b u
          else difference a b u - 1) ∧
      difference b a u = if a.day ≤ b.day ∨ ¬months u ∣ b.monthNumber - a.monthNumber then
        -difference a b u
        else -(difference a b u + 1) := by
  have hreaches := (le_iff_reaches hzone hzone').1 h
  obtain ⟨hnonneg, hless, hmore, hround⟩ := reaches_monthsBetween ha hb hreaches
  have hset : {k : Int | (add a k u).total ≤ b.total} = {k | Reaches a b (k * months u)} :=
    Set.ext fun k => add_le_iff hzone hzone' k hu
  rw [hset, difference_eq_tdiv a b hu, difference_eq_tdiv b a hu,
    Int.tdiv_eq_ediv_of_nonneg hnonneg]
  refine ⟨Int.ediv_nonneg hnonneg (months_pos u).le,
    isGreatest_units (months_pos u) hless hmore hround, ?_⟩
  have hmonths := hreaches.months ha hb
  rw [monthsBetween_swap (by omega), ← Int.neg_sub, Int.neg_tdiv,
    Int.tdiv_eq_ediv_of_nonneg (by omega), monthsBetween_eq]
  have hpos : b.day < a.day → 0 < b.monthNumber - a.monthNumber := by omega
  generalize b.monthNumber - a.monthNumber = m at hpos ⊢
  by_cases hday : b.day < a.day
  · simp only [hday, hpos hday, and_self, if_true, not_le.2 hday, false_or]
    split <;> rcases hu with rfl | rfl <;> simp only [months] at * <;> omega
  · simp only [hday, false_and, if_false, not_lt.1 hday, true_or, if_true]

/-- From noon of the last of January to the morning of the first of March in the year after:
thirteen months are counted, the thirteenth of which leads to the second of March. -/
theorem difference_months_march :
    IsGreatest {k : Int | (add (.ofFields 2023 1 31 12 0 0 0 .utc) k .month).total ≤
        (Moment.ofFields 2024 3 1 6 0 0 0 .utc).total} 12 ∧
      difference (.ofFields 2023 1 31 12 0 0 0 .utc) (.ofFields 2024 3 1 6 0 0 0 .utc) .month = 13 ∧
      difference (.ofFields 2024 3 1 6 0 0 0 .utc) (.ofFields 2023 1 31 12 0 0 0 .utc)
        .month = -14 := by
  obtain ⟨-, hgreatest, hback⟩ := difference_months (a := .ofFields 2023 1 31 12 0 0 0 .utc)
    (b := .ofFields 2024 3 1 6 0 0 0 .utc) (u := .month) (Moment.regular_ofTotal _ _)
      (Moment.regular_ofTotal _ _) rfl rfl
    (by decide) (.inr rfl)
  rw [if_neg (by decide)] at hgreatest
  exact ⟨hgreatest, by decide, hback.trans (by decide)⟩

/-- A day in reverse counts as a month if the month has changed, an hour less than a month counts as
a month, and so does a month of less days than the day that it starts from. -/
theorem difference_months_uneven :
    difference (.ofFields 2024 2 1 0 0 0 0 .utc) (.ofFields 2024 1 31 0 0 0 0 .utc) .month ≠
        -difference (.ofFields 2024 1 31 0 0 0 0 .utc) (.ofFields 2024 2 1 0 0 0 0 .utc) .month ∧
      ¬(add (.ofFields 2024 1 1 10 0 0 0 .utc)
          (difference (.ofFields 2024 1 1 10 0 0 0 .utc) (.ofFields 2024 2 1 9 0 0 0 .utc) .month)
            .month).total ≤
        (Moment.ofFields 2024 2 1 9 0 0 0 .utc).total ∧
      ¬(add (.ofFields 2023 1 31 0 0 0 0 .utc)
          (difference (.ofFields 2023 1 31 0 0 0 0 .utc) (.ofFields 2023 3 1 0 0 0 0 .utc) .month)
            .month).total ≤
        (Moment.ofFields 2023 3 1 0 0 0 0 .utc).total := by
  decide

end Months

end Formulary.Library.Dates
