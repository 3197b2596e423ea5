import Paniolo.Library.Calendar
import Paniolo.Library.Int64
import Paniolo.Library.Text

/-!
# Timestamps of the log

`civil_from_days` finds the date of a day number in years that begin in March,
counted in eras of 400 years, and `format_utc` prints it with the time of day.
-/

namespace Paniolo

namespace Serialcap

namespace Timestamp

open Calendar I64 Text

/-- Howard Hinnant's `civil_from_days`: days since 1970-01-01 to (year, month, day). -/
def civilFromDays (z : I64) : Option (Int × Nat × Nat) :=
  let z := z + 719468
  let era := (if ble 0 z then z else z - 146096) / 146097
  let doe := z - era * 146097
  let yoe := (doe - doe / 1460 + doe / 36524 - doe / 146096) / 365
  let y := yoe + era * 400
  let doy := doe - (365 * yoe + yoe / 4 - yoe / 100)
  let mp := (5 * doy + 2) / 153
  let d := (doy - (153 * mp + 2) / 5 + 1).asU32
  let m := if blt mp 10 then mp + 3 else mp - 9
  (y + if ble m 2 then 1 else 0).andThen fun y =>
    m.asU32.bind fun m => d.bind fun d => some (y, m, d)

/-- Format epoch milliseconds as `YYYY-MM-DDTHH:MM:SS.mmmZ` (UTC). -/
def formatUtc (ms : UInt64) : Option (List Char) :=
  let secs := val (ms / 1000).toInt64.toInt
  let millis := ms % 1000
  let days := secs.divEuclid 86400
  let tod := secs.remEuclid 86400
  (civilFromDays days).bind fun (y, m, d) =>
    (tod / 3600).andThen fun hours =>
      (tod % 3600 / 60).andThen fun minutes =>
        (tod % 60).andThen fun seconds =>
          some (zeroPaddedInt 4 y ++ '-' :: zeroPadded 2 m ++ '-' :: zeroPadded 2 d ++
            'T' :: zeroPaddedInt 2 hours ++ ':' :: zeroPaddedInt 2 minutes ++
            ':' :: zeroPaddedInt 2 seconds ++ '.' :: zeroPadded 3 millis.toNat ++ ['Z'])

/-- The day of an era on which a year of the era begins. -/
def yearStart (y : Int) : Int := 365 * y + y / 4 - y / 100

/-- The days of an era without the leap days among them. -/
def commonDays (doe : Int) : Int := doe - doe / 1460 + doe / 36524 - doe / 146096

theorem commonDays_mono {a b : Int} (h : a ≤ b) : commonDays a ≤ commonDays b := by
  induction b, h using Int.leInduction with
  | base => exact le_rfl
  | succ n _ ih =>
      have hstep : commonDays n ≤ commonDays (n + 1) := by
        simp only [commonDays]
        omega
      exact ih.trans hstep

/-- The first and the last day of each year of an era. -/
theorem commonDays_year : ∀ y : Nat, y < 400 →
    365 * (y : Int) ≤ commonDays (yearStart y) ∧
      commonDays (yearStart y + 364) < 365 * (y + 1) ∧
      (isLeap (y + 1) = true → commonDays (yearStart y + 365) < 365 * (y + 1)) := by
  decide +kernel

/-- The year of an era is found from the days of the era. -/
theorem yearOfEra_eq {y doy : Int} (hy : 0 ≤ y ∧ y < 400) (hdoy : 0 ≤ doy ∧ doy < 366)
    (hleap : doy = 365 → isLeap (y + 1) = true) :
    commonDays (yearStart y + doy) / 365 = y := by
  obtain ⟨n, rfl⟩ := Int.eq_ofNat_of_zero_le hy.1
  obtain ⟨hfirst, hlast, hextra⟩ := commonDays_year n (by omega)
  have hle := commonDays_mono (show yearStart n ≤ yearStart n + doy by omega)
  have hlt : commonDays (yearStart n + doy) < 365 * (n + 1) := by
    by_cases h : doy = 365
    · rw [h]
      exact hextra (hleap h)
    · have hle' := commonDays_mono (show yearStart n + doy ≤ yearStart n + 364 by omega)
      exact hle'.trans_lt hlast
  omega

/-- The month is found from the days of its year. -/
theorem month_of_marchDay (d : Date) :
    (5 * d.marchDay + 2) / 153 = d.marchMonth ∧
      d.marchDay - (153 * d.marchMonth + 2) / 5 + 1 = d.day ∧
      (if d.marchMonth < 10 then d.marchMonth + 3 else d.marchMonth - 9) = d.month := by
  obtain ⟨year, month, day, ⟨h1, h12⟩, hday⟩ := d
  simp only [Date.marchDay, Date.marchMonth]
  refine ⟨?_, by omega, by split <;> split <;> omega⟩
  by_cases hfeb : month = 2
  · subst hfeb
    have htwo : monthLength year 2 ≤ 29 := by
      rcases monthLength_two year with ⟨-, -, h⟩ | ⟨-, h⟩ <;> omega
    simp only [le_refl, if_true]
    omega
  · interval_cases month <;> simp [monthLength] at hfeb hday ⊢ <;> omega

theorem era_eq {n era doe : Int} (hlo : -9223372036854775808 ≤ n - 146096)
    (hhi : n < 9223372036854775808) (hn : n = 146097 * era + doe)
    (hdoe : 0 ≤ doe ∧ doe < 146097) :
    (if ble (val 0) (val n) then val n else val n - val 146096) / val 146097 = val era := by
  rw [val_ble]
  by_cases hpos : 0 ≤ n
  · rw [if_pos (decide_eq_true hpos), val_div ⟨hpos, hhi⟩ (by decide)]
    exact congrArg _ (by omega)
  · rw [if_neg (by simpa using hpos), val_sub (by omega), val_div_of_neg (by omega) (by decide)]
    exact congrArg _ (by omega)

theorem yearOfEra_eq_val {yoe doy doe : Int} (hy : 0 ≤ yoe ∧ yoe < 400) (hdoy : 0 ≤ doy ∧ doy < 366)
    (hleap : doy = 365 → isLeap (yoe + 1) = true) (hdoe : doe = yearStart yoe + doy) :
    (val doe - val doe / val 1460 + val doe / val 36524 - val doe / val 146096) / val 365 =
      val yoe := by
  have hyoe := yearOfEra_eq hy hdoy hleap
  rw [← hdoe] at hyoe
  rw [yearStart] at hdoe
  have hcommon := hyoe
  rw [commonDays] at hcommon
  rw [val_div (by omega) (by decide), val_div (by omega) (by decide), val_div (by omega) (by decide),
    val_sub (by omega), val_add (by omega), val_sub (by omega), val_div (by omega) (by decide)]
  exact congrArg val hyoe

/-- The date of a day number is found, unless the shift to the first era overflows. -/
theorem civilFromDays_dayNumber (d : Date) (hlo : -9223372036854775808 ≤ d.dayNumber)
    (hhi : d.dayNumber + 719468 < 9223372036854775808) :
    civilFromDays (val d.dayNumber) = some (d.year, d.month, d.day) := by
  have hn := d.dayNumber_eq
  obtain ⟨hdoy, hleap⟩ := d.marchDay_lt
  have hmod : 0 ≤ d.marchYear % 400 ∧ d.marchYear % 400 < 400 := by omega
  have hyear : isLeap (d.marchYear % 400 + 1) = isLeap (d.marchYear + 1) := by
    rw [Bool.eq_iff_iff, isLeap_iff, isLeap_iff]
    omega
  set n := d.dayNumber + 719468 with hshift
  set era := d.marchYear / 400
  set yoe := d.marchYear % 400
  set doe := yearStart yoe + d.marchDay with hdoeDef
  rw [yearStart] at hdoeDef
  have hn' : n = 146097 * era + doe := by omega
  have hdoeBound : 0 ≤ doe ∧ doe < 146097 := by omega
  have hz : val d.dayNumber + val 719468 = val n := val_add (by omega)
  have hera := era_eq (by omega) hhi hn' hdoeBound
  have hdoe : val n - val era * val 146097 = val doe := by
    rw [val_mul (by omega), val_sub (by omega)]
    exact congrArg _ (by omega)
  have hyoe := yearOfEra_eq_val hmod ⟨by omega, by omega⟩ (fun h => hyear.trans (hleap (by omega)))
    hdoeDef
  have hy : val yoe + val era * val 400 = val d.marchYear := by
    rw [val_mul (by omega), val_add (by omega)]
    exact congrArg _ (by omega)
  have hdoy' : val doe - (val 365 * val yoe + val yoe / val 4 - val yoe / val 100) =
      val d.marchDay := by
    rw [val_mul (by omega), val_div (by omega) (by omega), val_div (by omega) (by omega),
      val_add (by omega), val_sub (by omega), val_sub (by omega)]
    exact congrArg _ (by omega)
  obtain ⟨hmonth, hday, hcivil⟩ := month_of_marchDay d
  have hmp : (val 5 * val d.marchDay + val 2) / val 153 = val d.marchMonth := by
    rw [val_mul (by omega), val_add (by omega), val_div (by omega) (by decide)]
    exact congrArg _ (by omega)
  have hd : (val d.marchDay - (val 153 * val d.marchMonth + val 2) / val 5 + val 1).asU32 =
      some d.day := by
    rw [val_mul (by omega), val_add (by omega), val_div (by omega) (by decide), val_sub (by omega),
      val_add (by omega), val_asU32 (by omega)]
    exact congrArg _ (by omega)
  have hm : (if blt (val d.marchMonth) (val 10) then val d.marchMonth + val 3
      else val d.marchMonth - val 9) = val d.month := by
    rw [val_blt]
    by_cases h10 : d.marchMonth < 10
    · rw [if_pos h10] at hcivil
      rw [if_pos (by simpa using h10), val_add (by omega)]
      exact congrArg _ (by omega)
    · rw [if_neg h10] at hcivil
      rw [if_neg (by simpa using h10), val_sub (by omega)]
      exact congrArg _ (by omega)
  have hyear' : (val d.marchYear + if ble (val d.month) (val 2) then val 1 else val 0) =
      val d.year := by
    rw [val_ble]
    by_cases h2 : d.month ≤ 2
    · rw [if_pos (by simpa using h2), val_add (by omega)]
      rw [Date.marchYear, if_pos h2]
      exact congrArg _ (by omega)
    · rw [if_neg (by simpa using h2), val_add (by omega)]
      rw [Date.marchYear, if_neg h2]
      exact congrArg _ (by omega)
  have hmonth12 := d.month_mem
  have hall : civilFromDays (val d.dayNumber) = (val d.year).andThen fun y =>
      (val d.month).asU32.bind fun m => some d.day |>.bind fun d => some (y, m, d) := by
    rw [← hyear', ← hm, ← hd, ← hmp, ← hdoy', ← hy, ← hyoe, ← hdoe, ← hera, ← hz]
    rfl
  rw [hall, val_asU32 (by omega)]
  rfl

/-- A day number whose shift overflows has no date. -/
theorem civilFromDays_eq_none {z : Int} (h : 9223372036854775808 ≤ z + 719468) :
    civilFromDays (val z) = none := by
  have hz : val z + (719468 : I64) = none := checked_eq_none fun hin => absurd hin.2 (not_lt.mpr h)
  rw [civilFromDays]
  rw [hz]
  rfl

theorem year_nonneg {d : Date} (h : 0 ≤ d.dayNumber) : 0 ≤ d.year := by
  have hlt := d.marchDay_lt.1
  rw [Date.dayNumber] at h
  have hmarch : 0 ≤ d.marchYear := by omega
  rw [Date.marchYear] at hmarch
  split at hmarch <;> omega

theorem toInt_secs (ms : UInt64) : (ms / 1000).toInt64.toInt = (ms.toNat / 1000 : Nat) := by
  have hlt := ms.toNat_lt
  have hsmall : 2 * (ms / 1000).toBitVec.toNat < 2 ^ 64 := by
    change 2 * (ms / 1000).toNat < 2 ^ 64
    rw [UInt64.toNat_div]
    change 2 * (ms.toNat / 1000) < 2 ^ 64
    omega
  change (ms / 1000).toBitVec.toInt = _
  rw [BitVec.toInt_eq_toNat_of_lt hsmall]
  change (((ms / 1000).toNat : Nat) : Int) = _
  rw [UInt64.toNat_div]
  rfl

theorem civilFromDays_afterEpoch {n : Nat} (h : (n : Int) + 719468 < 9223372036854775808) :
    civilFromDays (val n) = some ((Date.afterEpoch n).year, (Date.afterEpoch n).month,
      (Date.afterEpoch n).day) := by
  have hn := Date.dayNumber_afterEpoch n
  have hcivil := civilFromDays_dayNumber (Date.afterEpoch n) (by omega) (by omega)
  rwa [hn] at hcivil

/-- The text of an instant: a year of at least four digits, fields of two, and the
milliseconds in three. -/
def isoText (t : Instant) : List Char :=
  zeroPadded 4 t.date.year.toNat ++ '-' :: fixedDigits 2 t.date.month ++
    '-' :: fixedDigits 2 t.date.day ++ 'T' :: fixedDigits 2 t.hour ++
    ':' :: fixedDigits 2 t.minute ++ ':' :: fixedDigits 2 t.second ++
    '.' :: fixedDigits 3 t.milli ++ ['Z']

theorem formatUtc_eq (ms : UInt64) :
    formatUtc ms = some (isoText (Instant.afterEpoch ms.toNat)) := by
  have hlt := ms.toNat_lt
  have hmillis : (ms % 1000).toNat = ms.toNat % 1000 := UInt64.toNat_mod ms 1000
  rw [formatUtc]
  dsimp only
  rw [toInt_secs, hmillis]
  set n := ms.toNat
  set t := Instant.afterEpoch n with ht
  have hth : t.hour = n / 3600000 % 24 := rfl
  have htm : t.minute = n / 60000 % 60 := rfl
  have hts : t.second = n / 1000 % 60 := rfl
  have hdays : (val (n / 1000 : Nat)).divEuclid 86400 = val (n / 86400000 : Nat) := by
    have hdiv := val_divEuclid (x := (n / 1000 : Nat)) (y := 86400) (by omega) (by decide)
    exact hdiv.trans (congrArg _ (by omega))
  have htod : (val (n / 1000 : Nat)).remEuclid 86400 = val (n / 1000 % 86400 : Nat) := by
    have hrem := val_remEuclid (x := (n / 1000 : Nat)) (y := 86400) (by decide)
    exact hrem.trans (congrArg _ (by omega))
  have hhour : val (n / 1000 % 86400 : Nat) / 3600 = val t.hour := by
    have hdiv := val_div (x := (n / 1000 % 86400 : Nat)) (y := 3600) (by omega) (by decide)
    exact hdiv.trans (congrArg _ (by omega))
  have hminute : val (n / 1000 % 86400 : Nat) % 3600 / 60 = val t.minute := by
    have hmod := val_mod (x := (n / 1000 % 86400 : Nat)) (y := 3600) (by omega) (by decide)
    have hdiv := val_div (x := (n / 1000 % 86400 : Nat) % 3600) (y := 60) (by omega) (by decide)
    exact (congrArg (· / val 60) hmod).trans
      (hdiv.trans (congrArg _ (by omega)))
  have hsecond : val (n / 1000 % 86400 : Nat) % 60 = val t.second := by
    have hmod := val_mod (x := (n / 1000 % 86400 : Nat)) (y := 60) (by omega) (by decide)
    exact hmod.trans (congrArg _ (by omega))
  have hday := t.date.day_mem
  have hmonth := t.date.month_mem
  have hlast := monthLength_le t.date.year t.date.month
  have hyear : t.date.year = t.date.year.toNat := by
    have hdate := Date.dayNumber_afterEpoch (n / 86400000)
    have hpos := year_nonneg (d := t.date) (by rw [ht, Instant.afterEpoch, hdate]; omega)
    omega
  rw [hdays, htod, civilFromDays_afterEpoch (by omega), hhour, hminute, hsecond]
  have hyear' : zeroPaddedInt 4 t.date.year = zeroPadded 4 t.date.year.toNat :=
    congrArg (zeroPaddedInt 4) hyear
  have htwo : ∀ m : Nat, m < 100 → zeroPadded 2 m = fixedDigits 2 m := fun m h => zeroPadded_eq h
  have hmilli : zeroPadded 3 (n % 1000) = fixedDigits 3 t.milli := zeroPadded_eq t.milli_lt
  change some (zeroPaddedInt 4 t.date.year ++ '-' :: zeroPadded 2 t.date.month ++
    '-' :: zeroPadded 2 t.date.day ++ 'T' :: zeroPadded 2 t.hour ++ ':' :: zeroPadded 2 t.minute ++
    ':' :: zeroPadded 2 t.second ++ '.' :: zeroPadded 3 (n % 1000) ++ ['Z']) = _
  rw [hyear', hmilli, htwo _ (by omega), htwo _ (by omega),
    htwo _ (t.hour_lt.trans (by decide)), htwo _ (t.minute_lt.trans (by decide)),
    htwo _ (t.second_lt.trans (by decide)), isoText]

/-- From the first day on, as far as the arithmetic reaches, each day is followed by the
calendar's next, and a timestamp has the date and the time of day of its instant. -/
theorem civilFromDays_calendar :
    civilFromDays 0 = some (1970, 1, 1) ∧
      (∀ z : Int, 0 ≤ z → z + 1 + 719468 < 9223372036854775808 → ∃ d : Date,
        civilFromDays (val z) = some (d.year, d.month, d.day) ∧
          civilFromDays (val (z + 1)) = some (d.next.year, d.next.month, d.next.day)) ∧
      ∀ ms : UInt64, ∃ t : Instant, t.millis = ms.toNat ∧ formatUtc ms = some (isoText t) := by
  refine ⟨rfl, fun z h0 h => ?_, fun ms => ?_⟩
  · obtain ⟨n, rfl⟩ := Int.eq_ofNat_of_zero_le h0
    refine ⟨Date.afterEpoch n, civilFromDays_afterEpoch (by omega), ?_⟩
    exact civilFromDays_afterEpoch (n := n + 1) (by omega)
  · exact ⟨Instant.afterEpoch ms.toNat, Instant.millis_afterEpoch ms.toNat, formatUtc_eq ms⟩

theorem civilFromDays_calendar_leapDay :
    ∃ d : Date, civilFromDays (val 11015) = some (d.year, d.month, d.day) ∧
      civilFromDays (val (11015 + 1)) = some (d.next.year, d.next.month, d.next.day) :=
  civilFromDays_calendar.2.1 11015 (by decide) (by decide)

/-- The day number after the last one whose shift to the first era is in range has no date. -/
theorem not_civilFromDays_next :
    ¬ ∀ z : Int, 0 ≤ z → InI64 (z + 1) → ∃ d : Date,
      civilFromDays (val z) = some (d.year, d.month, d.day) ∧
        civilFromDays (val (z + 1)) = some (d.next.year, d.next.month, d.next.day) := by
  intro h
  obtain ⟨d, -, hnext⟩ := h 9223372036854056339 (by decide) (by decide)
  rw [civilFromDays_eq_none (by decide)] at hnext
  cases hnext

end Timestamp

end Serialcap

end Paniolo
