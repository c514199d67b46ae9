import Formulary.Calendar.Moment
import Mathlib.Data.Int.Init
import Mathlib.Tactic.IntervalCases

/-!
# Dates and day numbers

The months of all years are numbered in one row, so that carrying a month over a year is a sum. A
day number falls into the month that starts by it while the next one does not (`Date.Falls`), and a
moment is a day of a month with the time of its clock (`total_eq`): moving a date by years, months
and days is arithmetic on these three (`total_addDate`).
-/

namespace Formulary.Calendar

section Years

variable {y : Int}

def yearLength (year : Int) : Int := if isLeap year then 366 else 365

theorem isLeap_iff (y : Int) : isLeap y = true ↔ y % 4 = 0 ∧ (y % 100 ≠ 0 ∨ y % 400 = 0) := by
  simp [isLeap]

theorem daysBeforeYear_eq (y : Int) :
    daysBeforeYear y = 365 * (y - 1) + (y - 1) / 4 - (y - 1) / 100 + (y - 1) / 400 := by
  simp only [daysBeforeYear, Int.fdiv_eq_ediv_of_nonneg _ (show (0 : Int) ≤ 4 by decide),
    Int.fdiv_eq_ediv_of_nonneg _ (show (0 : Int) ≤ 100 by decide),
    Int.fdiv_eq_ediv_of_nonneg _ (show (0 : Int) ≤ 400 by decide)]

theorem daysBeforeYear_succ (y : Int) : daysBeforeYear (y + 1) =
    daysBeforeYear y + yearLength y := by
  have hleap := isLeap_iff y
  rw [daysBeforeYear_eq, daysBeforeYear_eq, yearLength]
  split
  · rename_i h
    have := hleap.1 h
    omega
  · rename_i h
    have := mt hleap.2 h
    omega

/-- The days before a year by its place in cycles of 400, 100 and 4 years. -/
theorem daysBeforeYear_cycles {c i d h : Int} (hi : 0 ≤ i ∧ i ≤ 3) (hd : 0 ≤ d ∧ d ≤ 24)
    (hh : 0 ≤ h ∧ h ≤ 3) :
    daysBeforeYear (400 * c + 100 * i + 4 * d + h + 1) =
      146097 * c + 36524 * i + 1461 * d + 365 * h := by
  have hfour : (400 * c + 100 * i + 4 * d + h) / 4 = 100 * c + 25 * i + d := by omega
  have hcentury : (400 * c + 100 * i + 4 * d + h) / 100 = 4 * c + i := by omega
  have hcycle : (400 * c + 100 * i + 4 * d + h) / 400 = c := by omega
  rw [daysBeforeYear_eq, Int.add_sub_cancel, hfour, hcentury, hcycle]
  omega

/-- A day falls into the year that starts by it while the next one does not. -/
theorem yearOfDay_spec (n : Int) : daysBeforeYear (yearOfDay n) ≤ n ∧
    n < daysBeforeYear (yearOfDay n + 1) := by
  unfold yearOfDay
  simp only [Int.fdiv_eq_ediv_of_nonneg _ (show (0 : Int) ≤ 146097 by decide),
    Int.fmod_eq_emod_of_nonneg _ (show (0 : Int) ≤ 146097 by decide)]
  have hn : n = 146097 * (n / 146097) + n % 146097 := by omega
  have hr : 0 ≤ n % 146097 ∧ n % 146097 < 146097 := by omega
  generalize n / 146097 = c at hn ⊢
  generalize n % 146097 = r at hn hr ⊢
  -- The last year of a cycle takes what is left over, also the leap day that ends the cycle.
  have hi : (0 ≤ min (r / 36524) 3 ∧ min (r / 36524) 3 ≤ 3) ∧ 0 ≤ r - min (r / 36524) 3 * 36524 ∧
    (r - min (r / 36524) 3 * 36524 < 36524 ∨ min (r / 36524) 3 = 3 ∧
      r - min (r / 36524) 3 * 36524 ≤ 36524) := by omega
  generalize min (r / 36524) 3 = i at hi ⊢
  generalize hs : r - i * 36524 = s at hi ⊢
  have hd : (0 ≤ s / 1461 ∧ s / 1461 ≤ 24) ∧ s = 1461 * (s / 1461) + s % 1461 := by omega
  have hq : 0 ≤ s % 1461 ∧ s % 1461 < 1461 := by omega
  generalize s / 1461 = d at hd ⊢
  generalize s % 1461 = q at hd hq ⊢
  have hh : (0 ≤ min (q / 365) 3 ∧ min (q / 365) 3 ≤ 3) ∧ 365 * min (q / 365) 3 ≤ q ∧
    (q < 365 * min (q / 365) 3 + 365 ∨ min (q / 365) 3 = 3 ∧ q = 1460) := by omega
  generalize min (q / 365) 3 = h at hh ⊢
  have hleap := isLeap_iff (400 * c + 100 * i + 4 * d + h + 1)
  rw [daysBeforeYear_succ (400 * c + 100 * i + 4 * d + h + 1),
    daysBeforeYear_cycles hi.1 hd.1 hh.1, yearLength]
  refine ⟨by omega, ?_⟩
  split
  · omega
  · rename_i hcommon
    have := mt hleap.2 hcommon
    omega

end Years

section Months

variable {y : Int} {n : Nat}

/-- The first number found from above is the greatest. -/
theorem find?_downward {p : Nat → Bool} {m : Nat}
    (h : (((List.range n).map (· + 1)).reverse).find? p = some m) :
    p m = true ∧ 1 ≤ m ∧ m ≤ n ∧ ∀ k, m < k → k ≤ n → p k = false := by
  induction n with
  | zero => cases h
  | succ n ih =>
    rw [List.range_succ, List.map_append, List.reverse_append, List.map_singleton,
      List.reverse_singleton, List.singleton_append, List.find?_cons] at h
    split at h
    · rename_i hp
      obtain rfl := Option.some.inj h
      exact ⟨hp, by omega, Nat.le_refl _, fun k hk hk' => absurd hk' (by omega)⟩
    · rename_i hp
      obtain ⟨hm, hlow, hhigh, hnone⟩ := ih h
      refine ⟨hm, hlow, by omega, fun k hk hk' => ?_⟩
      obtain hk' | rfl := Nat.le_succ_iff.1 hk'
      · exact hnone k hk hk'
      · exact hp

theorem daysBefore_last (y : Int) : (daysBefore y 13 : Int) = yearLength y := by
  cases h : isLeap y <;> simp [daysBefore, yearLength, daysBeforeMonth, h]

/-- A day of the year falls into the last month that starts by it. -/
theorem monthOfDay_spec (h : (n : Int) < yearLength y) :
    1 ≤ monthOfDay y n ∧ monthOfDay y n ≤ 12 ∧ daysBefore y (monthOfDay y n) ≤ n ∧
      n < daysBefore y (monthOfDay y n + 1) := by
  have hsome : ((((List.range 12).map (· + 1)).reverse).find? fun m =>
      decide (daysBefore y m ≤ n)).isSome := by
    rw [List.find?_isSome]
    exact ⟨1, by decide, by simp [daysBefore, daysBeforeMonth]⟩
  obtain ⟨m, hm⟩ := Option.isSome_iff_exists.1 hsome
  obtain ⟨hstart, hlow, hhigh, hlater⟩ := find?_downward hm
  rw [monthOfDay, hm, Option.getD_some]
  refine ⟨hlow, hhigh, of_decide_eq_true hstart, ?_⟩
  obtain rfl | hlt : m = 12 ∨ m < 12 := by omega
  · rw [← daysBefore_last] at h
    exact_mod_cast h
  · exact Nat.lt_of_not_le (of_decide_eq_false (hlater (m + 1) (Nat.lt_succ_self m) hlt))

/-- The day number of the first of a month. Months are numbered from January of year zero. -/
def monthStart (m : Int) : Int := dayNumber 0 (m + 1) 1

theorem monthStart_eq (m : Int) :
    monthStart m = daysBeforeYear (m / 12) + daysBefore (m / 12)
      ((m % 12).toNat + 1) - epochDay := by
  simp only [monthStart, dayNumber, Int.add_sub_cancel, Int.zero_add, Int.sub_self, Int.add_zero,
    Int.fdiv_eq_ediv_of_nonneg _ (show (0 : Int) ≤ 12 by decide),
    Int.fmod_eq_emod_of_nonneg _ (show (0 : Int) ≤ 12 by decide)]

/-- The day number of a date with its month and day carried over. -/
theorem dayNumber_eq (y m d : Int) : dayNumber y m d = monthStart (12 * y + m - 1) + (d - 1) := by
  have hyear : (12 * y + m - 1) / 12 = y + (m - 1) / 12 := by omega
  have hmonth : (12 * y + m - 1) % 12 = (m - 1) % 12 := by omega
  rw [monthStart_eq, hyear, hmonth]
  simp only [dayNumber, Int.fdiv_eq_ediv_of_nonneg _ (show (0 : Int) ≤ 12 by decide),
    Int.fmod_eq_emod_of_nonneg _ (show (0 : Int) ≤ 12 by decide)]
  omega

theorem monthStart_written (y : Int) {m : Nat} (hlow : 1 ≤ m) (hhigh : m ≤ 12) :
    monthStart (12 * y + m - 1) = daysBeforeYear y + daysBefore y m - epochDay := by
  have hyear : (12 * y + m - 1) / 12 = y := by omega
  have hmonth : ((12 * y + m - 1) % 12).toNat + 1 = m := by omega
  rw [monthStart_eq, hyear, hmonth]

theorem daysBefore_succ (y : Int) {m : Nat} (hlow : 1 ≤ m) (hhigh : m ≤ 12) :
    daysBefore y m + 28 ≤ daysBefore y (m + 1) ∧ daysBefore y (m + 1) ≤ daysBefore y m + 31 := by
  unfold daysBefore
  interval_cases m <;> cases isLeap y <;> decide

/-- A month of the last year and the month after it. -/
theorem monthStart_next (y : Int) {m : Nat} (hlow : 1 ≤ m) (hhigh : m ≤ 12) :
    monthStart (12 * y + m) = daysBeforeYear y + daysBefore y (m + 1) - epochDay := by
  obtain rfl | hlt : m = 12 ∨ m < 12 := by omega
  · have hjanuary := monthStart_written (y + 1) (m := 1) (by decide) (by decide)
    rw [daysBeforeYear_succ] at hjanuary
    rw [daysBefore_last, show 12 * y + ((12 : Nat) : Int) =
      12 * (y + 1) + ((1 : Nat) : Int) - 1 by omega, hjanuary]
    simp [daysBefore, daysBeforeMonth]
  · have hnext := monthStart_written y (m := m + 1) (by omega) hlt
    rw [← hnext]
    congr 1
    omega

/-- A month has 28 to 31 days. -/
theorem monthStart_succ (m : Int) : monthStart m + 28 ≤ monthStart (m + 1) ∧
    monthStart (m + 1) ≤ monthStart m + 31 := by
  have hlow : 1 ≤ (m % 12).toNat + 1 := by omega
  have hhigh : (m % 12).toNat + 1 ≤ 12 := by omega
  have hstart := monthStart_written (m / 12) hlow hhigh
  have hnext := monthStart_next (m / 12) hlow hhigh
  have hlength := daysBefore_succ (m / 12) hlow hhigh
  rw [show 12 * (m / 12) + (((m % 12).toNat + 1 : Nat) : Int) - 1 = m by omega] at hstart
  rw [show 12 * (m / 12) + (((m % 12).toNat + 1 : Nat) : Int) = m + 1 by omega] at hnext
  omega

theorem monthStart_le {m n : Int} (h : m ≤ n) : monthStart m ≤ monthStart n := by
  induction n, h using Int.leInduction with
  | base => exact Int.le_refl _
  | succ n _ ih =>
    have hlength := monthStart_succ n
    omega

end Months

/-- The number of the month of a date. -/
def Date.monthNumber (d : Date) : Int := 12 * d.year + d.month - 1

structure Date.Falls (d : Date) (n : Int) : Prop where
  month_pos : 1 ≤ d.month
  month_le : d.month ≤ 12
  day_pos : 1 ≤ d.day
  day_eq : n = monthStart d.monthNumber + (d.day - 1)
  day_lt : n < monthStart (d.monthNumber + 1)

/-- The date of a day falls on it. -/
theorem dateOfDay_falls (n : Int) : (dateOfDay n).Falls n := by
  obtain ⟨hyear, hyear'⟩ := yearOfDay_spec (n + epochDay)
  rw [daysBeforeYear_succ] at hyear'
  have hcast : ((n + epochDay - daysBeforeYear (yearOfDay (n + epochDay))).toNat : Int) =
      n + epochDay - daysBeforeYear (yearOfDay (n + epochDay)) := Int.toNat_of_nonneg (by omega)
  obtain ⟨hlow, hhigh, hstart, hend⟩ := monthOfDay_spec (y := yearOfDay (n + epochDay))
    (n := (n + epochDay - daysBeforeYear (yearOfDay (n + epochDay))).toNat) (by omega)
  have hwritten := monthStart_written (yearOfDay (n + epochDay)) hlow hhigh
  have hnext := monthStart_next (yearOfDay (n + epochDay)) hlow hhigh
  refine ⟨hlow, hhigh, Nat.succ_pos _, ?_, ?_⟩
  · simp only [dateOfDay, Date.monthNumber, hwritten]
    omega
  · rw [show (dateOfDay n).monthNumber + 1 = 12 * (dateOfDay n).year + (dateOfDay n).month by
      simp only [Date.monthNumber]; omega]
    simp only [dateOfDay, hnext]
    omega

namespace Moment

variable {t : Moment}

/-- The nanoseconds of a day. -/
def dayNanos : Int := 86400 * second

/-- A moment whose nanoseconds are less than a second. -/
def Regular (t : Moment) : Prop := (t.nanos : Int) < second

theorem regular_ofTotal (ns : Int) (zone : Zone) : (ofTotal ns zone).Regular := by
  simp only [Regular, ofTotal, second, Int.fmod_eq_emod_of_nonneg _
    (show (0 : Int) ≤ 1000000000 by decide)]
  omega

@[simp] theorem total_ofTotal (ns : Int) (zone : Zone) : (ofTotal ns zone).total = ns := by
  simp only [total, ofTotal, second, Int.fmod_eq_emod_of_nonneg _
    (show (0 : Int) ≤ 1000000000 by decide),
    Int.fdiv_eq_ediv_of_nonneg _ (show (0 : Int) ≤ 1000000000 by decide)]
  omega

@[simp] theorem zone_ofTotal (ns : Int) (zone : Zone) : (ofTotal ns zone).zone = zone := rfl

def monthNumber (t : Moment) : Int := t.date.monthNumber

/-- The nanoseconds of the day that have passed in the zone. -/
def clock (t : Moment) : Int := t.secondOfDay * second + t.nanos

theorem date_falls (t : Moment) : t.date.Falls t.dayIndex := dateOfDay_falls t.dayIndex

theorem day_pos (t : Moment) : 1 ≤ t.day := t.date_falls.day_pos

/-- The days of a month end before the next one starts. -/
theorem day_le (t : Moment) : monthStart t.monthNumber + t.day ≤
    monthStart (t.monthNumber + 1) := by
  have hlast : monthStart t.monthNumber + ((t.day : Int) - 1) < monthStart (t.monthNumber + 1) :=
    t.date_falls.day_eq ▸ t.date_falls.day_lt
  omega

theorem clock_nonneg (t : Moment) : 0 ≤ t.clock := by
  simp only [clock, second]
  omega

theorem clock_lt (h : t.Regular) : t.clock < dayNanos := by
  have hseconds : t.secondOfDay < 86400 := by
    simp only [secondOfDay, Int.fmod_eq_emod_of_nonneg _ (show (0 : Int) ≤ 86400 by decide)]
    omega
  simp only [Regular, clock, dayNanos, second] at h ⊢
  omega

/-- A moment is a day of a month and a time of the clock. -/
theorem total_eq (t : Moment) :
    t.total = (monthStart t.monthNumber + (t.day - 1)) * dayNanos + t.clock -
      t.zone.offset * second := by
  have hday : monthStart t.monthNumber + ((t.day : Int) - 1) = t.dayIndex :=
    t.date_falls.day_eq.symm
  rw [hday]
  simp only [total, clock, dayIndex, secondOfDay, clockSeconds, dayNanos, second,
    Int.fmod_eq_emod_of_nonneg _ (show (0 : Int) ≤ 86400 by decide),
    Int.fdiv_eq_ediv_of_nonneg _ (show (0 : Int) ≤ 86400 by decide)]
  omega

theorem secondOfDay_eq (t : Moment) : ((t.hour * 60 + t.minute) * 60 + t.sec : Int) =
    t.secondOfDay := by
  simp only [hour, minute, sec]
  omega

theorem total_addDate (t : Moment) (years months days : Int) :
    (t.addDate years months days).total =
      (monthStart (t.monthNumber + 12 * years + months) + (t.day + days - 1)) * dayNanos + t.clock -
        t.zone.offset * second := by
  have hnumber : 12 * (t.year + years) + (t.month + months) - 1 =
      t.monthNumber + 12 * years + months := by
    simp only [monthNumber, Date.monthNumber, year, month]
    omega
  have hclock := t.secondOfDay_eq
  rw [addDate, ofFields, total_ofTotal, dayNumber_eq, hnumber]
  simp only [clock, dayNanos, second]
  omega

@[simp] theorem zone_addDate (t : Moment) (years months days : Int) :
    (t.addDate years months days).zone = t.zone := by
  simp only [addDate, ofFields, zone_ofTotal]

end Moment

end Formulary.Calendar
