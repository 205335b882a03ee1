import StyleContract.Moment.Reader

/-!
# Proofs — Moment — Calendar

Dates out of day numbers. Within an era of 400 years the year of a day is found by one division of
a corrected day count. The count never goes down from a day to the next, so it is enough to look at
the first and the last day of each year (`yearOfEra_first`, `yearOfEra_last`) to know that every
day falls into its year.

**A date is one of the calendar** (`ofDayNumber_spec`): its month has that many days, in that year.
-/

namespace StyleContract.Calendar

/-- The year of a day of an era, both counted from zero; an era starts on the first of March. -/
def yearOfEra (e : Int) : Int := (e - e / 1460 + e / 36524 - e / 146096) / 365

/-- The first day of a year of an era. -/
def yearStart (y : Int) : Int := 365 * y + y / 4 - y / 100 + y / 400

/-! ### Days into years -/

theorem yearOfEra_mono {a b : Int} (h : a ≤ b) : yearOfEra a ≤ yearOfEra b := by
  -- the last two terms change together, where a fourth century ends
  have hfour (e : Int) : e / 146096 = e / 36524 / 4 := by omega
  have hyears : a - a / 1460 ≤ b - b / 1460 := by omega
  have hcenturies : a / 36524 - a / 36524 / 4 ≤ b / 36524 - b / 36524 / 4 := by omega
  rw [yearOfEra, yearOfEra, hfour, hfour]
  omega

set_option maxRecDepth 4000 in
theorem yearOfEra_first : ∀ y : Fin 400, yearOfEra (yearStart y.val) = y.val := by decide

set_option maxRecDepth 4000 in
theorem yearOfEra_last : ∀ y : Fin 400, yearOfEra (yearStart (y.val + 1) - 1) = y.val := by
  decide

set_option maxRecDepth 4000 in
/-- The days of a year that starts in March: the leap day of the next February counts. -/
theorem yearStart_succ : ∀ y : Fin 400,
    yearStart (y.val + 1) = yearStart y.val + 365 + (if isLeap (y.val + 1) then 1 else 0) := by
  decide

theorem isLeap_add_eras (y k : Int) : isLeap (y + k * 400) = isLeap y := by
  have hfour : (y + k * 400) % 4 = y % 4 := by omega
  have hcentury : (y + k * 400) % 100 = y % 100 := by omega
  have hera : (y + k * 400) % 400 = y % 400 := by omega
  rw [isLeap, isLeap, hfour, hcentury, hera]

/-- **Every day of an era lies in its year.** -/
theorem yearOfEra_spec {e : Int} (h : 0 ≤ e) (h' : e < 146097) :
    0 ≤ yearOfEra e ∧ yearOfEra e < 400 ∧ yearStart (yearOfEra e) ≤ e ∧
      e < yearStart (yearOfEra e + 1) := by
  have hzero : yearOfEra 0 = 0 := by decide
  have hend : yearOfEra 146096 = 399 := by decide
  have hlow : 0 ≤ yearOfEra e := hzero ▸ yearOfEra_mono h
  have hhigh : yearOfEra e ≤ 399 := hend ▸ yearOfEra_mono (Int.le_sub_one_of_lt h')
  obtain ⟨n, hn⟩ := Int.eq_ofNat_of_zero_le hlow
  refine ⟨hlow, by omega, Int.not_lt.1 fun hlt => ?_, Int.not_le.1 fun hle => ?_⟩
  · rw [hn] at hlt
    cases n with
    | zero => exact absurd hlt (Int.not_lt.2 h)
    | succ n =>
        -- a day before the start of its year is not after the last day of the year before
        have hlast : yearOfEra (yearStart (n + 1 : Nat) - 1) = n := yearOfEra_last ⟨n, by omega⟩
        have hmono := yearOfEra_mono (Int.le_sub_one_of_lt hlt)
        omega
  · rw [hn] at hle
    by_cases hn' : n + 1 < 400
    · have hfirst : yearOfEra (yearStart (n + 1 : Nat)) = (n + 1 : Nat) :=
        yearOfEra_first ⟨n + 1, hn'⟩
      have hmono := yearOfEra_mono hle
      rw [← Int.natCast_add_one, hfirst] at hmono
      omega
    · have hlastDay : yearStart 400 = 146097 := by decide
      rw [show (n : Int) + 1 = 400 by omega] at hle
      omega

/-! ### Months and days -/

/-- The month of a day of a year, counted from zero and from March. -/
def monthOfYear (d : Int) : Int := (5 * d + 2) / 153

def dayOfMonth (d : Int) : Int := d - (153 * monthOfYear d + 2) / 5 + 1

def monthNumber (d : Int) : Int :=
  if monthOfYear d < 10 then monthOfYear d + 3 else monthOfYear d - 9

set_option maxRecDepth 4000 in
/-- Days of a year into months: all but February have their days in every year. -/
theorem monthNumber_spec : ∀ d : Fin 366,
    1 ≤ monthNumber d.val ∧ monthNumber d.val ≤ 12 ∧ 1 ≤ dayOfMonth d.val ∧
      (if monthNumber d.val = 2 then dayOfMonth d.val ≤ 29 ∧ (d.val < 365 → dayOfMonth d.val ≤ 28)
        else (dayOfMonth d.val).toNat ≤ daysIn 1 (monthNumber d.val).toNat) := by
  decide

theorem daysIn_le (y : Int) (m : Nat) : daysIn y m ≤ 31 := by
  unfold daysIn
  split
  · split <;> decide
  · split <;> decide

theorem daysIn_of_ne {m : Nat} (h : m ≠ 2) (y z : Int) : daysIn y m = daysIn z m := by
  simp [daysIn, h]

theorem ofDayNumber_eq {n e y d : Int} (he : e = (n + 719468) % 146097) (hy : y = yearOfEra e)
    (hd : d = e - (365 * y + y / 4 - y / 100)) :
    ofDayNumber n =
      (y + (n + 719468) / 146097 * 400 + (if monthNumber d ≤ 2 then 1 else 0),
        (monthNumber d).toNat, (dayOfMonth d).toNat) := by
  subst he hy hd
  rfl

/-- **Every day of an era lies in its year**, told by its place in the year: years start in March, so
a leap day is the last one of its year. -/
theorem dayOfYear_spec {e y d : Int} (h : 0 ≤ e) (h' : e < 146097) (hy : y = yearOfEra e)
    (hd : d = e - (365 * y + y / 4 - y / 100)) :
    0 ≤ y ∧ y < 400 ∧ 0 ≤ d ∧ d ≤ 365 ∧ (d = 365 → isLeap (y + 1) = true) := by
  obtain ⟨hlow, hhigh, hfirst, hlast⟩ := yearOfEra_spec h h'
  rw [← hy] at hlow hhigh hfirst hlast
  have hstart : d = e - yearStart y := by rw [hd, yearStart]; omega
  obtain ⟨k, rfl⟩ := Int.eq_ofNat_of_zero_le hlow
  have hlength := yearStart_succ ⟨k, by omega⟩
  simp only at hlength
  refine ⟨hlow, hhigh, by omega, ?_⟩
  split at hlength
  · next hleap => exact ⟨by omega, fun _ => hleap⟩
  · omega

/-- **A date is one of the calendar.** -/
theorem ofDayNumber_spec (n : Int) :
    1 ≤ (ofDayNumber n).2.1 ∧ (ofDayNumber n).2.1 ≤ 12 ∧ 1 ≤ (ofDayNumber n).2.2 ∧
      (ofDayNumber n).2.2 ≤ daysIn (ofDayNumber n).1 (ofDayNumber n).2.1 := by
  obtain ⟨e, he⟩ : ∃ e, e = (n + 719468) % 146097 := ⟨_, rfl⟩
  obtain ⟨y, hy⟩ : ∃ y, y = yearOfEra e := ⟨_, rfl⟩
  obtain ⟨d, hd⟩ : ∃ d, d = e - (365 * y + y / 4 - y / 100) := ⟨_, rfl⟩
  obtain ⟨-, -, hlow, hle, hlast⟩ := dayOfYear_spec (by omega) (by omega) hy hd
  obtain ⟨j, rfl⟩ := Int.eq_ofNat_of_zero_le hlow
  obtain ⟨hmonth, hmonth', hpos, hdays⟩ := monthNumber_spec ⟨j, by omega⟩
  simp only at hmonth hmonth' hpos hdays
  rw [ofDayNumber_eq he hy hd]
  refine ⟨by simp only; omega, by simp only; omega, by simp only; omega, ?_⟩
  simp only
  split at hdays
  · next hfebruary =>
    rw [hfebruary, if_pos (by decide), Int.add_right_comm]
    rw [daysIn, if_pos (by decide), isLeap_add_eras]
    split
    · omega
    · next hcommon =>
      have hnotLast : (j : Int) ≠ 365 := fun h => hcommon (hlast h)
      have hshort := hdays.2 (by omega)
      omega
  · next hother =>
    rw [daysIn_of_ne (by omega) _ 1]
    exact hdays

/-- **A date tells its day.** -/
theorem dayNumber_ofDayNumber (n : Int) :
    dayNumber (ofDayNumber n).1 (ofDayNumber n).2.1 (ofDayNumber n).2.2 = n := by
  obtain ⟨e, he⟩ : ∃ e, e = (n + 719468) % 146097 := ⟨_, rfl⟩
  obtain ⟨y, hy⟩ : ∃ y, y = yearOfEra e := ⟨_, rfl⟩
  obtain ⟨d, hd⟩ : ∃ d, d = e - (365 * y + y / 4 - y / 100) := ⟨_, rfl⟩
  obtain ⟨hy0, hy400, hlow, hle, -⟩ := dayOfYear_spec (by omega) (by omega) hy hd
  rw [ofDayNumber_eq he hy hd]
  have hmonth : 0 ≤ monthOfYear d ∧ monthOfYear d ≤ 11 := by rw [monthOfYear]; omega
  have hday : 1 ≤ dayOfMonth d := by rw [dayOfMonth, monthOfYear]; omega
  have hsum : (153 * monthOfYear d + 2) / 5 + dayOfMonth d - 1 = d := by rw [dayOfMonth]; omega
  obtain ⟨m, hm⟩ : ∃ m, m = monthOfYear d := ⟨_, rfl⟩
  rw [← hm] at hmonth hsum
  obtain ⟨k, hk⟩ : ∃ k, k = (n + 719468) / 146097 := ⟨_, rfl⟩
  have hn : n = k * 146097 + e - 719468 := by omega
  rw [← hk, hn]
  have hcast : ((dayOfMonth d).toNat : Int) = dayOfMonth d := Int.toNat_of_nonneg (by omega)
  have hera : (y + k * 400) / 400 = k := by omega
  have hyear : (y + k * 400) % 400 = y := by omega
  -- January and February belong to the year that started in the March before
  by_cases hlate : m < 10
  · have hnumber : monthNumber d = m + 3 := by rw [monthNumber, ← hm, if_pos hlate]
    have hmarch : ((((m + 3).toNat : Nat) : Int) + 9) % 12 = m := by omega
    simp only [dayNumber, hnumber, hcast, hmarch]
    rw [if_neg (by omega), if_neg (by omega), Int.add_zero, hera, hyear]
    omega
  · have hnumber : monthNumber d = m - 9 := by rw [monthNumber, ← hm, if_neg hlate]
    have hmarch : ((((m - 9).toNat : Nat) : Int) + 9) % 12 = m := by omega
    simp only [dayNumber, hnumber, hcast, hmarch]
    rw [if_pos (by omega), if_pos (by omega), Int.add_sub_cancel, hera, hyear]
    omega

end StyleContract.Calendar
