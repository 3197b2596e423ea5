import Mathlib.Tactic

/-!
# The Gregorian calendar

A date is a year, a month and a day that the month has. `Date.next` is the day
after, by the rule of 4, 100 and 400; `Date.dayNumber` counts the days from
1970-01-01 with years that begin in March, so that the day a leap year adds
comes last.
-/

namespace Paniolo

namespace Calendar

def isLeap (year : Int) : Bool := year % 4 == 0 && (year % 100 != 0 || year % 400 == 0)

/-- The number of days of a month; a month that does not exist has none. -/
def monthLength (year : Int) : Nat → Nat
  | 1 | 3 | 5 | 7 | 8 | 10 | 12 => 31
  | 4 | 6 | 9 | 11 => 30
  | 2 => if isLeap year then 29 else 28
  | _ => 0

theorem isLeap_iff (year : Int) :
    isLeap year = true ↔ year % 4 = 0 ∧ (year % 100 ≠ 0 ∨ year % 400 = 0) := by
  simp [isLeap]

theorem monthLength_two (year : Int) :
    (year % 4 = 0 ∧ (year % 100 ≠ 0 ∨ year % 400 = 0) ∧ monthLength year 2 = 29) ∨
      (¬ (year % 4 = 0 ∧ (year % 100 ≠ 0 ∨ year % 400 = 0)) ∧ monthLength year 2 = 28) := by
  by_cases h : isLeap year = true
  · have hleap := (isLeap_iff year).mp h
    exact .inl ⟨hleap.1, hleap.2, by simp [monthLength, h]⟩
  · exact .inr ⟨fun hleap => h ((isLeap_iff year).mpr hleap), by simp [monthLength, h]⟩

theorem monthLength_pos {year : Int} {month : Nat} (h : 1 ≤ month ∧ month ≤ 12) :
    1 ≤ monthLength year month := by
  obtain ⟨h1, h12⟩ := h
  interval_cases month <;> simp only [monthLength] <;> (try split) <;> omega

theorem monthLength_le (year : Int) (month : Nat) : monthLength year month ≤ 31 := by
  rw [monthLength.eq_def]
  split <;> (try split) <;> omega

@[ext]
structure Date where
  year : Int
  month : Nat
  day : Nat
  month_mem : 1 ≤ month ∧ month ≤ 12
  day_mem : 1 ≤ day ∧ day ≤ monthLength year month
deriving DecidableEq

namespace Date

/-- The first day of a month. -/
def first (year : Int) (month : Nat) (h : 1 ≤ month ∧ month ≤ 12) : Date where
  year := year
  month := month
  day := 1
  month_mem := h
  day_mem := ⟨le_rfl, monthLength_pos h⟩

/-- 1970-01-01. -/
def epoch : Date := first 1970 1 (by decide)

/-- The day after. -/
def next (d : Date) : Date :=
  if hday : d.day < monthLength d.year d.month then
    { d with day := d.day + 1, day_mem := ⟨by omega, hday⟩ }
  else if hmonth : d.month < 12 then
    first d.year (d.month + 1) ⟨by omega, hmonth⟩
  else
    first (d.year + 1) 1 (by decide)

/-- The date so many days after the epoch. -/
def afterEpoch : Nat → Date
  | 0 => epoch
  | n + 1 => (afterEpoch n).next

/-- The year that began in March. -/
def marchYear (d : Date) : Int := if d.month ≤ 2 then d.year - 1 else d.year

/-- The months since March. -/
def marchMonth (d : Date) : Nat := if d.month ≤ 2 then d.month + 9 else d.month - 3

/-- The days since the first of March. -/
def marchDay (d : Date) : Nat := (153 * d.marchMonth + 2) / 5 + (d.day - 1)

/-- The days since 1970-01-01. -/
def dayNumber (d : Date) : Int :=
  365 * d.marchYear + d.marchYear / 4 - d.marchYear / 100 + d.marchYear / 400 + d.marchDay - 719468

theorem dayNumber_epoch : epoch.dayNumber = 0 := by decide

/-- The days of the years before, the days of the months before, and the days before. -/
theorem dayNumber_eq (d : Date) :
    d.dayNumber + 719468 =
      146097 * (d.marchYear / 400) + (365 * (d.marchYear % 400) + d.marchYear % 400 / 4 -
        d.marchYear % 400 / 100) + d.marchDay := by
  have hyears : 365 * d.marchYear + d.marchYear / 4 - d.marchYear / 100 + d.marchYear / 400 =
      146097 * (d.marchYear / 400) + (365 * (d.marchYear % 400) + d.marchYear % 400 / 4 -
        d.marchYear % 400 / 100) := by
    omega
  rw [dayNumber, hyears]
  omega

/-- A year has 365 days, and 366 only if its February is in a leap year. -/
theorem marchDay_lt (d : Date) :
    d.marchDay < 366 ∧ (d.marchDay = 365 → isLeap (d.marchYear + 1) = true) := by
  obtain ⟨year, month, day, ⟨h1, h12⟩, hday⟩ := d
  simp only [marchDay, marchMonth, marchYear]
  by_cases hfeb : month = 2
  · subst hfeb
    have hyear : year - 1 + 1 = year := by omega
    simp only [le_refl, if_true, hyear]
    rcases monthLength_two year with ⟨h4, h100, hlen⟩ | ⟨-, hlen⟩
    · exact ⟨by omega, fun _ => (isLeap_iff year).mpr ⟨h4, h100⟩⟩
    · exact ⟨by omega, fun h => absurd h (by omega)⟩
  · have hle := monthLength_le year month
    have hlt : (153 * (if month ≤ 2 then month + 9 else month - 3) + 2) / 5 + (day - 1) < 365 := by
      split <;> omega
    exact ⟨by omega, fun h => absurd h (by omega)⟩

/-- The day after is one day later. -/
theorem dayNumber_next (d : Date) : d.next.dayNumber = d.dayNumber + 1 := by
  obtain ⟨year, month, day, ⟨h1, h12⟩, hday⟩ := d
  rw [next]
  dsimp only
  by_cases hlast : day < monthLength year month
  · rw [dif_pos hlast]
    simp only [dayNumber, marchDay, marchMonth, marchYear]
    omega
  · rw [dif_neg hlast]
    by_cases hyear : month < 12
    · rw [dif_pos hyear]
      simp only [dayNumber, marchDay, marchMonth, marchYear, first]
      by_cases hfeb : month = 2
      · subst hfeb
        have hlen := monthLength_two year
        simp
        omega
      · have hmonth : month = 1 ∨ (3 ≤ month ∧ month ≤ 11) := by omega
        rcases hmonth with rfl | ⟨h3, h11⟩
        · simp [monthLength] at hlast hday ⊢
          omega
        · interval_cases month <;> simp [monthLength] at hlast hday ⊢ <;> omega
    · rw [dif_neg hyear]
      obtain rfl : month = 12 := by omega
      simp [dayNumber, marchDay, marchMonth, marchYear, first, monthLength] at hlast hday ⊢
      omega

theorem dayNumber_afterEpoch (n : Nat) : (afterEpoch n).dayNumber = n := by
  induction n with
  | zero => exact dayNumber_epoch
  | succ n ih =>
      rw [afterEpoch, dayNumber_next, ih]
      omega

end Date

/-- A date and a time of day, to the millisecond. -/
structure Instant where
  date : Date
  hour : Nat
  minute : Nat
  second : Nat
  milli : Nat
  hour_lt : hour < 24
  minute_lt : minute < 60
  second_lt : second < 60
  milli_lt : milli < 1000

namespace Instant

/-- The milliseconds since the epoch. -/
def millis (t : Instant) : Int :=
  (((t.date.dayNumber * 24 + t.hour) * 60 + t.minute) * 60 + t.second) * 1000 + t.milli

/-- The instant so many milliseconds after the epoch. -/
def afterEpoch (n : Nat) : Instant where
  date := Date.afterEpoch (n / 86400000)
  hour := n / 3600000 % 24
  minute := n / 60000 % 60
  second := n / 1000 % 60
  milli := n % 1000
  hour_lt := Nat.mod_lt _ (by decide)
  minute_lt := Nat.mod_lt _ (by decide)
  second_lt := Nat.mod_lt _ (by decide)
  milli_lt := Nat.mod_lt _ (by decide)

theorem millis_afterEpoch (n : Nat) : (afterEpoch n).millis = n := by
  simp only [millis, afterEpoch, Date.dayNumber_afterEpoch]
  omega

end Instant

end Calendar

end Paniolo
