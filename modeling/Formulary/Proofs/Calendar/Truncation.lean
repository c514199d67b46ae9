import Formulary.Proofs.Calendar.Units
import Formulary.Proofs.Library.Calls
import Mathlib.Order.Monotone.Basic

/-!
# The units a moment falls into

The units of one kind follow each other without a gap: unit number `k` reaches from `begins u k` to
`begins u (k + 1)` on the clock of the zone. A moment falls into exactly one of them
(`begins_number`, `number_eq`), its start is where this one begins (`wall_startOf`), and one unit
more leads to where the next begins (`wall_add_startOf`). All that is known about starts and ends of
units is read off these numbers (`units_delimited`).
-/

namespace Formulary.Library.Dates

open Calendar
open Calendar.Moment (dayNanos)

variable {t t' : Moment} {u : TimeUnit} {k : Int}

/-- The nanoseconds that the clock of the zone shows, counted from the start of 1970. -/
def wall (t : Moment) : Int := t.total + t.zone.offset * second

/-- Where a unit begins on the clock of the zone. Years are numbered as they are, months from
January of year zero, and the units of fixed length from the start of 1970. -/
def begins : TimeUnit → Int → Int
  | .year, k => monthStart (12 * k) * dayNanos
  | .month, k => monthStart k * dayNanos
  | u, k => k * u.nanos

def number (t : Moment) : TimeUnit → Int
  | .year => t.year
  | .month => t.monthNumber
  | u => wall t / u.nanos

section Numbers

theorem wall_eq (t : Moment) : wall t = (monthStart t.monthNumber + (t.day - 1)) *
    dayNanos + t.clock := by
  rw [wall, t.total_eq]
  omega

theorem monthNumber_eq (t : Moment) : t.monthNumber = 12 * t.year + t.month - 1 := rfl

/-- No unit is shorter than a millisecond. -/
theorem begins_gap (u : TimeUnit) (k : Int) : begins u k + 1000000 ≤ begins u (k + 1) := by
  cases u with
  | year =>
    have hmonth := monthStart_succ (12 * k)
    have hyear := monthStart_le (show 12 * k + 1 ≤ 12 * (k + 1) by omega)
    simp only [begins, dayNanos, second]
    omega
  | month =>
    have hmonth := monthStart_succ k
    simp only [begins, dayNanos, second]
    omega
  | _ =>
    simp only [begins, TimeUnit.nanos, second]
    omega

theorem begins_lt_iff (u : TimeUnit) {j k : Int} : begins u j < begins u k ↔ j < k := by
  have hmono : StrictMono (begins u) := strictMono_int_of_lt_succ fun k => by
    have := begins_gap u k
    omega
  exact hmono.lt_iff_lt

theorem begins_le_iff (u : TimeUnit) {j k : Int} : begins u j ≤ begins u k ↔ j ≤ k := by
  rw [← Int.not_lt, ← Int.not_lt, begins_lt_iff]

theorem year_bounds (t : Moment) : 12 * t.year ≤ t.monthNumber ∧
    t.monthNumber < 12 * (t.year + 1) := by
  have hlow : 1 ≤ t.month := t.date_falls.month_pos
  have hhigh : t.month ≤ 12 := t.date_falls.month_le
  rw [monthNumber_eq]
  omega

/-- A moment falls into the unit of its number. -/
theorem begins_number (ht : t.Regular) (u : TimeUnit) :
    begins u (number t u) ≤ wall t ∧ wall t < begins u (number t u + 1) := by
  have hclock := t.clock_nonneg
  have hclock' := t.clock_lt ht
  have hfirst := t.day_pos
  have hlast := t.day_le
  cases u with
  | year =>
    have hyear := year_bounds t
    have hstart := monthStart_le hyear.1
    have hend := monthStart_le (show t.monthNumber + 1 ≤ 12 * (t.year + 1) by omega)
    simp only [begins, number, wall_eq, dayNanos, second] at *
    omega
  | month =>
    simp only [begins, number, wall_eq, dayNanos, second] at *
    omega
  | _ =>
    simp only [begins, number, TimeUnit.nanos, second]
    omega

/-- There is no other unit that a moment falls into. -/
theorem number_eq (ht : t.Regular) (hlow : begins u k ≤ wall t)
    (hhigh : wall t < begins u (k + 1)) : number t u = k := by
  obtain ⟨hstart, hend⟩ := begins_number ht u
  have hle := (begins_lt_iff u).1 (lt_of_le_of_lt hlow hend)
  have hge := (begins_lt_iff u).1 (lt_of_le_of_lt hstart hhigh)
  omega

theorem number_le (ht : t.Regular) (ht' : t'.Regular) (h : wall t ≤ wall t') :
    number t u ≤ number t' u := by
  obtain ⟨hstart, -⟩ := begins_number ht u
  obtain ⟨-, hend⟩ := begins_number ht' u
  have hlt := (begins_lt_iff u).1 (lt_of_le_of_lt (hstart.trans h) hend)
  omega

end Numbers

section Starts

@[simp] theorem zone_startOf (t : Moment) (u : TimeUnit) : (startOf t u).zone = t.zone := by
  cases u <;> rfl

theorem regular_startOf (t : Moment) (u : TimeUnit) : (startOf t u).Regular := by
  cases u <;> exact Moment.regular_ofTotal _ _

theorem regular_add (t : Moment) (n : Int) (u : TimeUnit) : (add t n u).Regular := by
  rw [← ofTotal_total_add]
  exact Moment.regular_ofTotal _ _

theorem wall_ofFields (y m d h i s n : Int) (z : Zone) :
    wall (.ofFields y m d h i s n z) =
      (monthStart (12 * y + m - 1) + (d - 1)) * dayNanos + ((h * 60 + i) * 60 + s) *
        second + n := by
  simp only [wall, Moment.ofFields, Moment.total_ofTotal, Moment.zone_ofTotal, dayNumber_eq,
    dayNanos, second]
  omega

/-- The start of a unit is where it begins. -/
theorem wall_startOf (ht : t.Regular) (u : TimeUnit) :
    wall (startOf t u) = begins u (number t u) := by
  have hnumber := monthNumber_eq t
  cases u with
  | year =>
    simp only [startOf, wall_ofFields, begins, number, Int.add_sub_cancel, dayNanos, second]
    omega
  | month =>
    simp only [startOf, wall_ofFields, begins, number, ← hnumber, dayNanos, second]
    omega
  | _ =>
    have hseconds : t.secondOfDay < 86400 := by
      simp only [Moment.secondOfDay, Int.fmod_eq_emod_of_nonneg _
        (show (0 : Int) ≤ 86400 by decide)]
      omega
    simp only [startOf, wall_ofFields, ← hnumber, begins, number]
    simp only [wall_eq, Moment.clock, Moment.Regular, dayNanos, TimeUnit.nanos, second,
      Moment.hour, Moment.minute, Moment.sec] at *
    omega

/-- A moment at which a month begins is the first of it at midnight. -/
theorem first_of_wall (ht : t.Regular) (h : wall t = monthStart k * dayNanos) :
    t.monthNumber = k ∧ t.day = 1 ∧ t.clock = 0 := by
  have hgap := begins_gap .month k
  have hmonth : t.monthNumber = k := by
    refine number_eq (u := .month) ht (le_of_eq h.symm) ?_
    simp only [begins] at hgap ⊢
    omega
  have hclock := t.clock_nonneg
  have hfirst := t.day_pos
  rw [wall_eq, hmonth] at h
  simp only [dayNanos, second] at h
  omega

theorem wall_addDate (t : Moment) (years months days : Int) :
    wall (t.addDate years months days) =
      (monthStart (t.monthNumber + 12 * years + months) + (t.day + days - 1)) *
        dayNanos + t.clock := by
  rw [wall, Moment.total_addDate, Moment.zone_addDate]
  omega

/-- One unit after the start of a unit the next one begins. -/
theorem wall_add_startOf (ht : t.Regular) (u : TimeUnit) :
    wall (add (startOf t u) 1 u) = begins u (number t u + 1) := by
  have hstart := wall_startOf ht u
  cases u with
  | year =>
    obtain ⟨hmonth, hday, hclock⟩ := first_of_wall (regular_startOf t .year) hstart
    have hnext : 12 * number t .year + 12 * 1 + 0 = 12 * (number t .year + 1) := by omega
    simp only [add, wall_addDate, hmonth, hday, hclock, hnext, begins, dayNanos, second]
    omega
  | month =>
    obtain ⟨hmonth, hday, hclock⟩ := first_of_wall (regular_startOf t .month) hstart
    have hnext : number t .month + 12 * 0 + 1 = number t .month + 1 := by omega
    simp only [add, wall_addDate, hmonth, hday, hclock, hnext, begins, dayNanos, second]
    omega
  | _ =>
    rw [(add_iff _ 1 (by decide)).2 (by decide)]
    simp only [wall, zone_startOf, Moment.total_ofTotal, Moment.zone_ofTotal, begins,
      TimeUnit.nanos, second] at *
    omega

theorem ofTotal_total_startOf (t : Moment) (u : TimeUnit) :
    .ofTotal (startOf t u).total t.zone = startOf t u := by
  cases u <;> simp only [startOf, Moment.ofFields, Moment.total_ofTotal]

/-- Moments of one unit and one zone have one start. -/
theorem startOf_eq (ht : t.Regular) (ht' : t'.Regular) (hzone : t'.zone = t.zone)
    (h : number t' u = number t u) :
    startOf t' u = startOf t u := by
  have hwall : wall (startOf t' u) = wall (startOf t u) := by
    rw [wall_startOf ht, wall_startOf ht', h]
  rw [wall, wall, zone_startOf, zone_startOf, hzone] at hwall
  rw [← ofTotal_total_startOf t', ← ofTotal_total_startOf t, hzone, add_right_cancel hwall]

theorem startOf_startOf (ht : t.Regular) (u : TimeUnit) :
    startOf (startOf t u) u = startOf t u := by
  have hgap := begins_gap u (number t u)
  have hstart := wall_startOf ht u
  exact startOf_eq ht (regular_startOf t u) (zone_startOf t u)
    (number_eq (regular_startOf t u) (le_of_eq hstart.symm) (by omega))

/-- The next unit starts where one unit is added to the start. -/
theorem startOf_add_startOf (ht : t.Regular) (u : TimeUnit) :
    startOf (add (startOf t u) 1 u) u = add (startOf t u) 1 u := by
  have hgap := begins_gap u (number t u + 1)
  have hnext := wall_add_startOf ht u
  have hregular := regular_add (startOf t u) 1 u
  have hwall := wall_startOf hregular u
  rw [number_eq hregular (le_of_eq hnext.symm) (by omega), ← hnext, wall, wall,
    zone_startOf] at hwall
  rw [← ofTotal_total_startOf, add_right_cancel hwall, zone_add]
  exact ofTotal_total_add (startOf t u) 1 u

theorem total_endOf (t : Moment) (u : TimeUnit) :
    (endOf t u).total = (add (startOf t u) 1 u).total - 1000000 := by
  rw [endOf, Moment.add, Moment.total_ofTotal]
  omega

theorem zone_endOf (t : Moment) (u : TimeUnit) : (endOf t u).zone = t.zone := by
  rw [endOf, Moment.add, Moment.zone_ofTotal, zone_add, zone_startOf]

/-- The end of a unit lies in it. -/
theorem startOf_endOf (ht : t.Regular) (u : TimeUnit) : startOf (endOf t u) u = startOf t u := by
  have hgap := begins_gap u (number t u)
  have hnext := wall_add_startOf ht u
  have hend : wall (endOf t u) = begins u (number t u + 1) - 1000000 := by
    rw [← hnext, wall, wall, total_endOf, zone_endOf, zone_add, zone_startOf]
    omega
  have hregular : (endOf t u).Regular := Moment.regular_ofTotal _ _
  exact startOf_eq ht hregular (zone_endOf t u) (number_eq hregular (by omega) (by omega))

/-- A moment lies between the start of its unit and the start of the next one. -/
theorem startOf_le (ht : t.Regular) (u : TimeUnit) :
    (startOf t u).total ≤ t.total ∧ t.total < (add (startOf t u) 1 u).total := by
  have hstart := wall_startOf ht u
  have hnext := wall_add_startOf ht u
  obtain ⟨hlow, hhigh⟩ := begins_number ht u
  simp only [wall, zone_add, zone_startOf] at *
  omega

theorem startOf_monotone (ht : t.Regular) (ht' : t'.Regular) (hzone : t'.zone = t.zone)
    (h : t.total ≤ t'.total)
    (u : TimeUnit) : (startOf t u).total ≤ (startOf t' u).total := by
  have hwall : wall t ≤ wall t' := by
    rw [wall, wall, hzone]
    omega
  have hbegins := (begins_le_iff u).2 (number_le (u := u) ht ht' hwall)
  rw [← wall_startOf ht, ← wall_startOf ht', wall, wall, zone_startOf, zone_startOf,
    hzone] at hbegins
  omega

end Starts

section Calls

/-- Whether a text names a unit, in any letter case. -/
def TimeUnit.Names (name : Text) (u : TimeUnit) : Prop :=
  ∃ s, (u, s) ∈ TimeUnit.table ∧ Text.simpleLower name = Text.ofString s

theorem find?_table : ∀ v ∈ TimeUnit.table,
    (TimeUnit.table.find? fun w => Text.ofString w.2 == Text.ofString v.2) = some v := by
  decide

/-- The names of units are the texts that are accepted for them. -/
theorem ofName_eq_ok_iff {name : Text} : TimeUnit.ofName name = .ok u ↔ u.Names name := by
  constructor
  · intro h
    rw [TimeUnit.ofName] at h
    split at h
    · rename_i v hv
      obtain rfl := Except.ok.inj h
      have hmatch := List.find?_some hv
      exact ⟨v.2, List.mem_of_find?_eq_some hv, (eq_of_beq hmatch).symm⟩
    · cases h
  · rintro ⟨s, hs, hname⟩
    rw [TimeUnit.ofName, hname, find?_table (u, s) hs]

variable {name : Text} (now : Moment)

/-- What is done with a unit and a text that names it. -/
theorem bind_ofName (h : u.Names name) (f : TimeUnit → Value) :
    (match (do let u ← TimeUnit.ofName name; .ok (f u)) with
      | .ok v => (pure v : Eval Value)
      | .error e => failed e) = pure (f u) := by
  rw [ofName_eq_ok_iff.2 h]
  rfl

theorem gives_startOf (h : u.Names name) (t : Moment) :
    (library now).Gives "StartOf" [.dateTime t, .string name] (.dateTime (startOf t u)) :=
  congrArg some (bind_ofName h fun u => .dateTime (startOf t u))

theorem gives_endOf (h : u.Names name) (t : Moment) :
    (library now).Gives "EndOf" [.dateTime t, .string name] (.dateTime (endOf t u)) :=
  congrArg some (bind_ofName h fun u => .dateTime (endOf t u))

theorem gives_add (h : u.Names name) (n : Int) (t : Moment) :
    (library now).Gives "Add" [.dateTime t, .int .int n, .string name] (.dateTime (add t n u)) :=
  congrArg some (bind_ofName h fun u => .dateTime (add t n u))

end Calls

/-- Three moments that a library gives as the start of a unit, the start of the next one and the
end, by the name of the unit and a moment that falls into it. -/
structure Delimits (l : Library) (name : Text) (t start next last : Moment) : Prop where
  gives_start : l.Gives "StartOf" [.dateTime t, .string name] (.dateTime start)
  gives_next : l.Gives "Add" [.dateTime start, .int .int 1, .string name] (.dateTime next)
  gives_last : l.Gives "EndOf" [.dateTime t, .string name] (.dateTime last)
  start_le : start.total ≤ t.total
  lt_next : t.total < next.total
  last_eq : last.total = next.total - 1000000
  start_start : l.Gives "StartOf" [.dateTime start, .string name] (.dateTime start)
  start_next : l.Gives "StartOf" [.dateTime next, .string name] (.dateTime next)
  start_last : l.Gives "StartOf" [.dateTime last, .string name] (.dateTime start)
  start_monotone : ∀ t' : Moment, t'.Regular → t'.zone = t.zone → t.total ≤ t'.total →
    ∃ start' : Moment, l.Gives "StartOf" [.dateTime t', .string name] (.dateTime start') ∧
      start.total ≤ start'.total

/-- A moment lies between the start of its unit and the moment one unit later, at which the next
unit starts; the end of the unit is a millisecond before that and lies in the unit. The start of a
unit is its own start, and of two moments in their order the starts are in order too. -/
theorem units_delimited (now : Moment) (ht : t.Regular) {name : Text} (hname : u.Names name) :
    Delimits (library now) name t (startOf t u) (add (startOf t u) 1 u) (endOf t u) := by
  have hself := gives_startOf now hname (startOf t u)
  have hnext := gives_startOf now hname (add (startOf t u) 1 u)
  have hlast := gives_startOf now hname (endOf t u)
  rw [startOf_startOf ht] at hself
  rw [startOf_add_startOf ht] at hnext
  rw [startOf_endOf ht] at hlast
  obtain ⟨hlow, hhigh⟩ := startOf_le ht u
  exact {
    gives_start := gives_startOf now hname t
    gives_next := gives_add now hname 1 _
    gives_last := gives_endOf now hname t
    start_le := hlow
    lt_next := hhigh
    last_eq := total_endOf t u
    start_start := hself
    start_next := hnext
    start_last := hlast
    start_monotone := fun t' ht' hzone h =>
      ⟨startOf t' u, gives_startOf now hname t', startOf_monotone ht ht' hzone h u⟩ }

/-- The last nanosecond of February in a leap year, the unit written in capitals. -/
theorem units_delimited_february :
    TimeUnit.Names (Text.ofString "MONTH") .month ∧
      (Moment.ofFields 2024 2 29 23 59 59 999999999 .utc).Regular ∧
      Delimits (library millennium) (Text.ofString "MONTH")
        (.ofFields 2024 2 29 23 59 59 999999999 .utc)
        (.ofFields 2024 2 1 0 0 0 0 .utc) (.ofFields 2024 3 1 0 0 0 0 .utc)
        (.ofFields 2024 2 29 23 59 59 999000000 .utc) := by
  have hname : TimeUnit.Names (Text.ofString "MONTH") .month :=
    ⟨"month", by decide, by decide +kernel⟩
  have ht : (Moment.ofFields 2024 2 29 23 59 59 999999999 .utc).Regular :=
    Moment.regular_ofTotal _ _
  have hstart : startOf (.ofFields 2024 2 29 23 59 59 999999999 .utc) .month =
    .ofFields 2024 2 1 0 0 0 0 .utc := by decide
  have hnext : add (.ofFields 2024 2 1 0 0 0 0 .utc) 1 .month =
    .ofFields 2024 3 1 0 0 0 0 .utc := by decide
  have hlast : endOf (.ofFields 2024 2 29 23 59 59 999999999 .utc) .month =
      .ofFields 2024 2 29 23 59 59 999000000 .utc := by
    decide
  have h := units_delimited millennium ht hname
  rw [hstart, hnext, hlast] at h
  exact ⟨hname, ht, h⟩

end Formulary.Library.Dates
