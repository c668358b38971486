/-
  The stamps of directory entries.

  `Now_Date` and `Now_Time` write a clock reading (seconds since 1970) as a FAT date and time; `Dos_Epoch` reads them
  back.  The one goes from days to the calendar, the other from the calendar to days, and they are INVERSE: what is
  lost is the odd second.  No intermediate value leaves its 64-bit word, nor goes below 0.
-/
import Aegir.Lib.Civil
import Aegir.Fat32.Lookup
import Mathlib.Tactic.IntervalCases

namespace Aegir.Fat32

open Aegir.Lib

/-! ## The stamps -/

/-- `Fixed_Date`. -/
def fixedDate : Nat := 0x5A21

/-- `Now_Date`, at a reading of the clock. -/
def nowDate (secs : Nat) : Nat :=
  if secs < 946684800 then fixedDate
  else
    let z := secs / 86400 + 719468
    let era := z / 146097
    let doe := z % 146097
    let yoe := (doe - doe / 1460 + doe / 36524 - doe / 146096) / 365
    let y := yoe + era * 400
    let doy := doe - (365 * yoe + yoe / 4 - yoe / 100)
    let mp := (5 * doy + 2) / 153
    let d := doy - (153 * mp + 2) / 5 + 1
    let m := if mp < 10 then mp + 3 else mp - 9
    let y := if m ≤ 2 then y + 1 else y
    let y := min y 2107
    (y - 1980) * 512 + m * 32 + d

/-- `Now_Time`, at a reading of the clock. -/
def nowTime (secs : Nat) : Nat :=
  if secs < 946684800 then 0
  else
    let sod := secs % 86400
    (sod / 3600) * 2048 + ((sod / 60) % 60) * 32 + (sod % 60) / 2

/-! ## Valid fields -/

/-- The days of a month, January being 1. -/
def daysInMonth (y m : Nat) : Nat :=
  if m = 2 then (if Civil.Leap y then 29 else 28)
  else if m = 4 ∨ m = 6 ∨ m = 9 ∨ m = 11 then 30
  else 31

/-- A valid FAT date: the year from 1980 to 2107, and a day of the calendar. -/
structure DateOk (date16 : Nat) : Prop where
  year : 1980 + date16 / 512 ≤ 2107
  month : 1 ≤ (date16 / 32) % 16 ∧ (date16 / 32) % 16 ≤ 12
  day : 1 ≤ date16 % 32 ∧ date16 % 32 ≤ daysInMonth (1980 + date16 / 512) ((date16 / 32) % 16)

/-- A valid FAT time: hours, minutes and double seconds. -/
structure TimeOk (time16 : Nat) : Prop where
  hour : time16 / 2048 ≤ 23
  minute : (time16 / 32) % 64 ≤ 59
  second : time16 % 32 ≤ 29

/-- The month and the year, counted from March. -/
def marchMonth (m : Nat) : Nat := if m > 2 then m - 3 else m + 9

def marchYear (y m : Nat) : Nat := y - if m ≤ 2 then 1 else 0

theorem daysInMonth_march {y m : Nat} (hy : 0 < y) (hm : 1 ≤ m) (hm' : m ≤ 12) :
    daysInMonth y m = Civil.monthLength (marchYear y m) (marchMonth m) := by
  by_cases h2 : m = 2
  · -- February ends the year
    subst h2
    have hyear : marchYear y 2 = y - 1 := rfl
    have hmonth : marchMonth 2 = 11 := rfl
    have hback : y - 1 + 1 = y := Nat.succ_pred_eq_of_pos hy
    rw [daysInMonth, if_pos rfl, hyear, hmonth, Civil.monthLength, if_pos rfl, Civil.yearLength, hback]
    split <;> rfl
  · have hne : marchMonth m ≠ 11 := by
      unfold marchMonth
      split <;> omega
    rw [daysInMonth, if_neg h2, Civil.monthLength, if_neg hne]
    interval_cases m <;> first | rfl | exact absurd rfl h2

theorem DateOk.valid {date16 : Nat} (h : DateOk date16) :
    Civil.Valid (marchYear (1980 + date16 / 512) ((date16 / 32) % 16)) (marchMonth ((date16 / 32) % 16))
      (date16 % 32) := by
  obtain ⟨hfirst, hlast⟩ := h.month
  refine ⟨?_, h.day.1, ?_⟩
  · unfold marchMonth
    split <;> omega
  · rw [← daysInMonth_march (by omega) hfirst hlast]
    exact h.day.2

/-- The seconds of a day. -/
def daySeconds (time16 : Nat) : Nat := time16 / 2048 * 3600 + (time16 / 32) % 64 * 60 + (time16 % 32) * 2

theorem TimeOk.daySeconds_lt {time16 : Nat} (h : TimeOk time16) : daySeconds time16 < 86400 := by
  obtain ⟨hh, hm, hs⟩ := h
  unfold daySeconds
  omega

theorem TimeOk.daySeconds_mono {t t' : Nat} (h : TimeOk t) (h' : TimeOk t') (hlt : t < t') :
    daySeconds t < daySeconds t' := by
  obtain ⟨hh, hm, hs⟩ := h
  have ht' : t' = t' / 2048 * 2048 + (t' / 32) % 64 * 32 + t' % 32 := by omega
  unfold daySeconds
  omega

/-- The day of a date, counted from March of the year 0. -/
def dateDay (date16 : Nat) : Nat :=
  Civil.dayNumber (marchYear (1980 + date16 / 512) ((date16 / 32) % 16)) (marchMonth ((date16 / 32) % 16))
    (date16 % 32)

theorem yearStart_split (yy : Nat) :
    yy / 400 * 146097 + ((yy - yy / 400 * 400) * 365 + (yy - yy / 400 * 400) / 4 - (yy - yy / 400 * 400) / 100) =
      Civil.yearStart yy := by
  have hyoe : yy - yy / 400 * 400 < 400 := by omega
  have hsplit : (yy - yy / 400 * 400) + yy / 400 * 400 = yy := by omega
  have hera := Civil.yearStart_era (yy / 400) (yy - yy / 400 * 400)
  have hplace : Civil.yearStart (yy - yy / 400 * 400) =
      365 * (yy - yy / 400 * 400) + (yy - yy / 400 * 400) / 4 - (yy - yy / 400 * 400) / 100 := by
    rw [Civil.yearStart, Nat.div_eq_of_lt hyoe, Nat.add_zero]
  rw [hsplit, hplace] at hera
  rw [hera, Nat.mul_comm 365]
  exact Nat.add_comm _ _

/-- **What `Dos_Epoch` computes** of valid fields. -/
theorem dosEpoch_eq {date16 time16 : Nat} (hd : DateOk date16) (ht : TimeOk time16) :
    dosEpoch date16 time16 = (dateDay date16 - 719468) * 86400 + daySeconds time16 := by
  obtain ⟨hfirst, hlast⟩ := hd.month
  have hd1 := hd.day.1
  have hy := hd.year
  have hh := ht.hour
  have hm := ht.minute
  have hguard : ¬ ((date16 / 32) % 16 = 0 ∨ 12 < (date16 / 32) % 16 ∨ date16 % 32 = 0 ∨ 31 < date16 % 32 ∨
      1980 + date16 / 512 < 1980 ∨ 2107 < 1980 + date16 / 512 ∨ 23 < time16 / 2048 ∨ 59 < (time16 / 32) % 64) := by
    omega
  rw [dosEpoch]
  rw [if_neg hguard]
  have hsplit := yearStart_split (marchYear (1980 + date16 / 512) ((date16 / 32) % 16))
  unfold marchYear at hsplit
  show (_ / 400 * 146097 + (_ + (Civil.monthStart (marchMonth _) + date16 % 32 - 1)) - 719468) * 86400 +
    _ + _ + _ = _
  rw [← Nat.add_assoc, hsplit, dateDay, Civil.dayNumber, daySeconds, Nat.add_assoc, Nat.add_assoc, Nat.add_assoc]
  rfl

/-- **Later dates have later days.** -/
theorem dateDay_lt {d d' : Nat} (h : DateOk d) (h' : DateOk d') (hlt : d < d') : dateDay d < dateDay d' := by
  apply Civil.dayNumber_lt h.valid h'.valid
  have hm := h.month
  have hm' := h'.month
  unfold marchYear marchMonth
  split <;> split <;> split <;> split <;> omega

theorem dateDay_ge {d : Nat} (h : DateOk d) : 719468 ≤ dateDay d := by
  have hmono : Civil.yearStart 1979 ≤ Civil.yearStart (marchYear (1980 + d / 512) ((d / 32) % 16)) := by
    apply Civil.yearStart_mono
    unfold marchYear
    split <;> omega
  have hstart : Civil.yearStart 1979 = 722814 := rfl
  unfold dateDay Civil.dayNumber
  omega

/-! ## The stamps of a clock reading -/

theorem exists_date (z : Nat) : ∃ y m d, Civil.Valid y m d ∧ Civil.dayNumber y m d = z ∧
    y = Civil.eraYear (z % 146097) + z / 146097 * 400 ∧
    m = Civil.yearMonth (z % 146097 - Civil.yearStart (Civil.eraYear (z % 146097))) ∧
    d = z % 146097 - Civil.yearStart (Civil.eraYear (z % 146097)) - Civil.monthStart m + 1 := by
  obtain ⟨hlt, hle, hnext⟩ := Civil.eraYear_spec (Nat.mod_lt z (by decide : 0 < 146097))
  rw [Civil.yearStart_succ] at hnext
  have hdoy : z % 146097 - Civil.yearStart (Civil.eraYear (z % 146097)) <
      Civil.yearLength (Civil.eraYear (z % 146097) + z / 146097 * 400) := by
    rw [Civil.yearLength_era]
    omega
  obtain ⟨hstart, hvalid⟩ := Civil.yearMonth_valid hdoy
  refine ⟨_, _, _, hvalid, ?_, rfl, rfl, rfl⟩
  rw [Civil.dayNumber, Civil.yearStart_era]
  omega

/-- The word of a day in the calendar of March years. -/
def dateWord (y m d : Nat) : Nat :=
  (min (if (if m < 10 then m + 3 else m - 9) ≤ 2 then y + 1 else y) 2107 - 1980) * 512 +
    (if m < 10 then m + 3 else m - 9) * 32 + d

theorem nowDate_eq {secs : Nat} (h : 946684800 ≤ secs) : nowDate secs =
      dateWord (Civil.eraYear ((secs / 86400 + 719468) % 146097) + (secs / 86400 + 719468) / 146097 * 400)
        (Civil.yearMonth ((secs / 86400 + 719468) % 146097 -
          (365 * Civil.eraYear ((secs / 86400 + 719468) % 146097) +
            Civil.eraYear ((secs / 86400 + 719468) % 146097) / 4 -
            Civil.eraYear ((secs / 86400 + 719468) % 146097) / 100)))
        ((secs / 86400 + 719468) % 146097 - (365 * Civil.eraYear ((secs / 86400 + 719468) % 146097) +
            Civil.eraYear ((secs / 86400 + 719468) % 146097) / 4 -
            Civil.eraYear ((secs / 86400 + 719468) % 146097) / 100) -
          Civil.monthStart (Civil.yearMonth ((secs / 86400 + 719468) % 146097 -
            (365 * Civil.eraYear ((secs / 86400 + 719468) % 146097) +
              Civil.eraYear ((secs / 86400 + 719468) % 146097) / 4 -
              Civil.eraYear ((secs / 86400 + 719468) % 146097) / 100))) + 1) := by
  rw [nowDate, if_neg (by omega)]
  rfl

theorem dateWord_spec {y m d z : Nat} (hvalid : Civil.Valid y m d) (hnumber : Civil.dayNumber y m d = z)
    (hd : d ≤ 31) (hlow : 1999 < y ∨ y = 1999 ∧ 10 ≤ m) (hhigh : y < 2107 ∨ y = 2107 ∧ m < 10) :
    DateOk (dateWord y m d) ∧ dateDay (dateWord y m d) = z := by
  have hmonth := hvalid.month
  have hdfirst := hvalid.first
  -- the civil year and month
  obtain ⟨cy, cm, hcy, hcy', hcm, hcm', hyear, hmon, hword⟩ : ∃ cy cm, 2000 ≤ cy ∧ cy ≤ 2107 ∧ 1 ≤ cm ∧ cm ≤ 12 ∧
      marchYear cy cm = y ∧ marchMonth cm = m ∧ dateWord y m d = (cy - 1980) * 512 + cm * 32 + d := by
    unfold marchYear marchMonth dateWord
    by_cases hten : m < 10
    · refine ⟨y, m + 3, by omega, by omega, by omega, by omega, ?_, ?_, ?_⟩
      · rw [if_neg (by omega), Nat.sub_zero]
      · rw [if_pos (by omega), Nat.add_sub_cancel]
      · rw [if_pos hten, if_neg (by omega), Nat.min_eq_left (by omega)]
    · refine ⟨y + 1, m - 9, by omega, by omega, by omega, by omega, ?_, ?_, ?_⟩
      · rw [if_pos (by omega), Nat.add_sub_cancel]
      · rw [if_neg (by omega), Nat.sub_add_cancel (by omega)]
      · rw [if_neg hten, if_pos (by omega), Nat.min_eq_left (by omega)]
  have h1 : 1980 + dateWord y m d / 512 = cy := by omega
  have h2 : (dateWord y m d / 32) % 16 = cm := by omega
  have h3 : dateWord y m d % 32 = d := by omega
  refine ⟨⟨?_, ?_, ?_⟩, ?_⟩
  · rw [h1]
    exact hcy'
  · rw [h2]
    exact ⟨hcm, hcm'⟩
  · rw [h1, h2, h3, daysInMonth_march (by omega) hcm hcm', hyear, hmon]
    exact ⟨hdfirst, hvalid.last⟩
  · rw [dateDay, h1, h2, h3, hyear, hmon]
    exact hnumber

/-- **The date of a clock reading** is valid, and it is that day. -/
theorem nowDate_spec {secs : Nat} (hfirst : 946684800 ≤ secs) (hlast : secs < 4354819200) :
    DateOk (nowDate secs) ∧ dateDay (nowDate secs) = secs / 86400 + 719468 := by
  obtain ⟨y, m, d, hvalid, hnumber, hy, hm, hd⟩ := exists_date (secs / 86400 + 719468)
  obtain ⟨hlt, -, -⟩ := Civil.eraYear_spec (Nat.mod_lt (secs / 86400 + 719468) (by decide : 0 < 146097))
  have hplace : Civil.yearStart (Civil.eraYear ((secs / 86400 + 719468) % 146097)) =
      365 * Civil.eraYear ((secs / 86400 + 719468) % 146097) + Civil.eraYear ((secs / 86400 + 719468) % 146097) / 4 -
        Civil.eraYear ((secs / 86400 + 719468) % 146097) / 100 := by
    rw [Civil.yearStart, Nat.div_eq_of_lt hlt, Nat.add_zero]
  -- the year lies between 2000 and 2107
  have hdoy := hvalid.lt_year
  have hlength : Civil.yearLength y ≤ 366 := by
    unfold Civil.yearLength
    split <;> omega
  have hz : Civil.yearStart y + (Civil.monthStart m + d - 1) = secs / 86400 + 719468 := hnumber
  have h2107 : Civil.yearStart 2107 = 769565 := rfl
  have h2108 : Civil.yearStart 2108 = 769931 := rfl
  have hhigh : y ≤ 2107 := by
    by_contra hy
    have hmono : Civil.yearStart 2108 ≤ Civil.yearStart y := Civil.yearStart_mono (by omega)
    omega
  have hmonthStart : m < 10 → Civil.monthStart (m + 1) ≤ 306 := by
    intro h
    unfold Civil.monthStart
    omega
  have hmonthStart' : 10 ≤ m → 306 ≤ Civil.monthStart m := by
    intro h
    unfold Civil.monthStart
    omega
  have hlow' : y = 1999 → 10 ≤ m := by
    intro h
    by_contra hm
    have hnext := hvalid.lt_next (by omega)
    omega
  have hhigh' : y = 2107 → m < 10 := by
    intro h
    by_contra hm
    rw [h] at hz
    omega
  have hdlast : d ≤ 31 := by
    have hlast := hvalid.last
    have hle : Civil.monthLength y m ≤ 31 := by
      unfold Civil.monthLength Civil.monthStart
      split <;> omega
    omega
  -- the fields, as they are written
  have hdate : nowDate secs = dateWord y m d := by
    rw [nowDate_eq hfirst, ← hplace, ← hm, ← hy, ← hd]
  rw [hdate]
  exact dateWord_spec hvalid hnumber hdlast (by omega) (by omega)

/-- **The time of a clock reading** is valid, and it is that second of the day, rounded down to an even one. -/
theorem nowTime_spec {secs : Nat} (hfirst : 946684800 ≤ secs) :
    TimeOk (nowTime secs) ∧ daySeconds (nowTime secs) = secs % 86400 - secs % 2 := by
  have hsod : secs % 86400 < 86400 := Nat.mod_lt _ (by decide)
  have hparity : secs % 86400 % 2 = secs % 2 := Nat.mod_mod_of_dvd secs (by decide)
  have htime : nowTime secs = secs % 86400 / 3600 * 2048 + (secs % 86400 / 60) % 60 * 32 + (secs % 86400 % 60) / 2 := by
    rw [nowTime, if_neg (by omega)]
  generalize secs % 86400 = sod at *
  have hh : nowTime secs / 2048 = sod / 3600 := by omega
  have hm : (nowTime secs / 32) % 64 = (sod / 60) % 60 := by omega
  have hs : nowTime secs % 32 = (sod % 60) / 2 := by omega
  refine ⟨⟨?_, ?_, ?_⟩, ?_⟩
  · omega
  · omega
  · omega
  · rw [daySeconds, hh, hm, hs]
    omega

/-- **Time stamps round-trip**, and later stamps are later seconds. -/
theorem timestamps_round_trip :
    (∀ s, 946684800 ≤ s → s < 4354819200 →
      dosEpoch (nowDate s) (nowTime s) = s - s % 2 ∧ DateOk (nowDate s) ∧ TimeOk (nowTime s)) ∧
      ∀ d t d' t', DateOk d → TimeOk t → DateOk d' → TimeOk t' → (d < d' ∨ d = d' ∧ t < t') →
        dosEpoch d t < dosEpoch d' t' := by
  constructor
  · intro s hfirst hlast
    obtain ⟨hdate, hday⟩ := nowDate_spec hfirst hlast
    obtain ⟨htime, hseconds⟩ := nowTime_spec hfirst
    refine ⟨?_, hdate, htime⟩
    rw [dosEpoch_eq hdate htime, hday, hseconds, Nat.add_sub_cancel]
    omega
  · intro d t d' t' hd ht hd' ht' hlt
    rw [dosEpoch_eq hd ht, dosEpoch_eq hd' ht']
    rcases hlt with hlt | ⟨rfl, hlt⟩
    · have hday := dateDay_lt hd hd' hlt
      have hge := dateDay_ge hd
      have hseconds := ht.daySeconds_lt
      omega
    · have hseconds := ht.daySeconds_mono ht' hlt
      omega

/-- 29 February 2000 and the next day. -/
theorem timestamps_round_trip_leap :
    (dosEpoch (nowDate 951868799) (nowTime 951868799) = 951868798 ∧ DateOk (nowDate 951868799) ∧
      TimeOk (nowTime 951868799)) ∧ dosEpoch 10333 0 < dosEpoch 10337 0 :=
  ⟨timestamps_round_trip.1 951868799 (by decide) (by decide),
    timestamps_round_trip.2 10333 0 10337 0 ⟨by decide, by decide, by decide⟩ ⟨by decide, by decide, by decide⟩
      ⟨by decide, by decide, by decide⟩ ⟨by decide, by decide, by decide⟩ (.inl (by decide))⟩

end Aegir.Fat32
