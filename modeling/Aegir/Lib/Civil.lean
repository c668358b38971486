/-
  The civil calendar.

  Years begin with March here, so that a leap day is the last day of its year.  `yearStart` and `monthStart` count the
  days before a year and before a month; `eraYear` is the division that finds the year of a day within its 400 years.
  Days are counted from the first of March of the year 0.
-/
import Mathlib.Order.Monotone.Basic

namespace Aegir.Lib.Civil

def Leap (y : Nat) : Prop := y % 4 = 0 ∧ (y % 100 ≠ 0 ∨ y % 400 = 0)

instance (y : Nat) : Decidable (Leap y) := inferInstanceAs (Decidable (_ ∧ _))

/-- The days before the year `y`. -/
def yearStart (y : Nat) : Nat := 365 * y + y / 4 - y / 100 + y / 400

/-- The days of the year before its month `m`, March being 0. -/
def monthStart (m : Nat) : Nat := (153 * m + 2) / 5

/-- The days of the year `y`, which ends with the February of the next. -/
def yearLength (y : Nat) : Nat := if Leap (y + 1) then 366 else 365

/-- The days of the month `m` of the year `y`. -/
def monthLength (y m : Nat) : Nat := if m = 11 then yearLength y - monthStart 11 else monthStart (m + 1) - monthStart m

/-- A quotient goes up by one where the divisor divides. -/
theorem succ_div_eq (y n : Nat) : (y + 1) / n = y / n + if (y + 1) % n = 0 then 1 else 0 := by
  rw [Nat.succ_div]
  simp only [Nat.dvd_iff_mod_eq_zero]

theorem yearStart_succ (y : Nat) : yearStart (y + 1) = yearStart y + yearLength y := by
  have hcent : (y + 1) % 100 = 0 → (y + 1) % 4 = 0 := by omega
  have hera : (y + 1) % 400 = 0 → (y + 1) % 100 = 0 := by omega
  rw [yearStart, succ_div_eq y 4, succ_div_eq y 100, succ_div_eq y 400, yearStart, yearLength]
  by_cases h4 : (y + 1) % 4 = 0
  · by_cases h100 : (y + 1) % 100 = 0
    · by_cases h400 : (y + 1) % 400 = 0
      · rw [if_pos h4, if_pos h100, if_pos h400, if_pos ⟨h4, .inr h400⟩]
        omega
      · rw [if_pos h4, if_pos h100, if_neg h400, if_neg fun h => h.2.elim (fun hn => hn h100) h400]
        omega
    · rw [if_pos h4, if_neg h100, if_neg fun h => h100 (hera h), if_pos ⟨h4, .inl h100⟩]
      omega
  · have h100 : ¬ (y + 1) % 100 = 0 := fun h => h4 (hcent h)
    rw [if_neg h4, if_neg h100, if_neg fun h => h100 (hera h), if_neg fun h => h4 h.1]
    omega

theorem yearStart_mono : Monotone yearStart := by
  apply monotone_nat_of_le_succ
  intro y
  rw [yearStart_succ]
  exact Nat.le_add_right _ _

theorem yearLength_ge (y : Nat) : 365 ≤ yearLength y := by
  unfold yearLength
  split <;> omega

/-! ## The day of a date -/

/-- The days before the day `d` (from 1 on) of the month `m` of the year `y`. -/
def dayNumber (y m d : Nat) : Nat := yearStart y + (monthStart m + d - 1)

/-- A day of the calendar. -/
structure Valid (y m d : Nat) : Prop where
  month : m < 12
  first : 1 ≤ d
  last : d ≤ monthLength y m

/-- A day lies in its month. -/
theorem Valid.lt_next {y m d : Nat} (h : Valid y m d) (hm : m ≠ 11) : monthStart m + d - 1 < monthStart (m + 1) := by
  have hlast := h.last
  have hfirst := h.first
  rw [monthLength, if_neg hm] at hlast
  omega

/-- A day lies in its year. -/
theorem Valid.lt_year {y m d : Nat} (h : Valid y m d) : monthStart m + d - 1 < yearLength y := by
  have hge := yearLength_ge y
  by_cases hm : m = 11
  · have hlast := h.last
    have h11 : monthStart 11 = 337 := rfl
    rw [monthLength, if_pos hm] at hlast
    rw [hm]
    omega
  · have hnext := h.lt_next hm
    have hmonth := h.month
    have hstart : monthStart (m + 1) ≤ 337 := by
      unfold monthStart
      omega
    omega

/-- **Later days have greater numbers.** -/
theorem dayNumber_lt {y m d y' m' d' : Nat} (h : Valid y m d) (h' : Valid y' m' d')
    (hlt : y < y' ∨ y = y' ∧ (m < m' ∨ m = m' ∧ d < d')) : dayNumber y m d < dayNumber y' m' d' := by
  have hfirst := h.first
  have hfirst' := h'.first
  unfold dayNumber
  rcases hlt with hy | ⟨rfl, hm | ⟨rfl, hd⟩⟩
  · -- another year
    have hnext : yearStart (y + 1) ≤ yearStart y' := yearStart_mono hy
    have hyear := h.lt_year
    rw [yearStart_succ] at hnext
    omega
  · -- another month
    have hmonth := h'.month
    have hnext := h.lt_next (by omega)
    have hstart : monthStart (m + 1) ≤ monthStart m' := by
      unfold monthStart
      omega
    omega
  · omega

/-! ## The year of a day -/

/-- The year of a day, among the 400 years of an era. -/
def eraYear (doe : Nat) : Nat := (doe - doe / 1460 + doe / 36524 - doe / 146096) / 365

theorem eraYear_mono : Monotone eraYear := by
  apply monotone_nat_of_le_succ
  intro doe
  apply Nat.div_le_div_right
  omega

/-- The first and the last day of every year are found. -/
theorem eraYear_ends : ∀ y < 400, eraYear (yearStart y) = y ∧ eraYear (yearStart (y + 1) - 1) = y := by decide +kernel

/-- Every day lies in a year. -/
theorem exists_year (n : Nat) {doe : Nat} (h : doe < yearStart n) :
    ∃ y < n, yearStart y ≤ doe ∧ doe < yearStart (y + 1) := by
  induction n with
  | zero => exact absurd h (Nat.not_lt_zero _)
  | succ n ih =>
    by_cases hlt : doe < yearStart n
    · obtain ⟨y, hy, hrange⟩ := ih hlt
      exact ⟨y, Nat.lt_succ_of_lt hy, hrange⟩
    · exact ⟨n, Nat.lt_succ_self n, Nat.le_of_not_lt hlt, h⟩

/-- **The division finds the year.** -/
theorem eraYear_spec {doe : Nat} (h : doe < 146097) :
    eraYear doe < 400 ∧ yearStart (eraYear doe) ≤ doe ∧ doe < yearStart (eraYear doe + 1) := by
  obtain ⟨y, hy, hle, hlt⟩ := exists_year 400 h
  obtain ⟨hfirst, hlast⟩ := eraYear_ends y hy
  have hge : eraYear (yearStart y) ≤ eraYear doe := eraYear_mono hle
  have hle' : eraYear doe ≤ eraYear (yearStart (y + 1) - 1) := eraYear_mono (Nat.le_sub_one_of_lt hlt)
  have heq : eraYear doe = y := by omega
  rw [heq]
  exact ⟨hy, hle, hlt⟩

/-- Eras are alike. -/
theorem yearStart_era (e y : Nat) : yearStart (y + e * 400) = yearStart y + e * 146097 := by
  unfold yearStart
  omega

theorem yearLength_era (e y : Nat) : yearLength (y + e * 400) = yearLength y := by
  have h := yearStart_succ (y + e * 400)
  have h' := yearStart_succ y
  have hshift : y + e * 400 + 1 = (y + 1) + e * 400 := by omega
  rw [hshift, yearStart_era, yearStart_era] at h
  omega

/-! ## The month of a day -/

/-- The month of a day of the year. -/
def yearMonth (doy : Nat) : Nat := (5 * doy + 2) / 153

/-- **The division finds the month**, and the day in it is one of the calendar. -/
theorem yearMonth_valid {y doy : Nat} (h : doy < yearLength y) :
    monthStart (yearMonth doy) ≤ doy ∧ Valid y (yearMonth doy) (doy - monthStart (yearMonth doy) + 1) := by
  have hlen : yearLength y ≤ 366 := by
    unfold yearLength
    split <;> omega
  have hmonth : yearMonth doy < 12 := by
    unfold yearMonth
    omega
  have hstart : monthStart (yearMonth doy) ≤ doy := by
    unfold monthStart yearMonth
    omega
  refine ⟨hstart, hmonth, Nat.succ_pos _, ?_⟩
  unfold monthLength
  by_cases hm : yearMonth doy = 11
  · rw [if_pos hm, hm]
    rw [hm] at hstart
    omega
  · have hnext : doy < monthStart (yearMonth doy + 1) := by
      unfold monthStart yearMonth
      omega
    rw [if_neg hm]
    omega

end Aegir.Lib.Civil
