import CqlWire.Proofs.Calendar.Parts
import Mathlib.Order.Basic
import Mathlib.Tactic.IntervalCases

/-!
# Days and their numbers

The number of a day counts the days of the years and of the months before it (`toDays_eq_dayNumber`).
From its number a day is found again: the 400 years of a cycle begin in March, each of them a number
of days into the cycle (`yearStart`), and the year of a day is the one in whose span it lies
(`yearOf_spec`). Its place in that year gives month and day (`ofDays_eq`). So every number is that of
a day of the calendar (`toDays_ofDays`, `isValid_ofDays`), and a date is its year, month and day
(`Date.ofCivil?_civil`).
-/

namespace CqlWire

namespace Civil

/-! ## Counting days -/

/-- The number of days of a year before one of its months. -/
def daysBefore (year : Int) : Nat → Nat
  | 0 => 0
  | month + 1 => daysBefore year month + daysInMonth year month

/-- The number of days from 1970-01-01: 365 for each year before, one more for each leap year before,
and the days of the year up to the day. -/
def dayNumber (c : Civil) : Int :=
  365 * (c.year - 1) + ((c.year - 1) / 4 - (c.year - 1) / 100 + (c.year - 1) / 400) +
    daysBefore c.year c.month + c.day - 719163

/-- The days of whole years, counted by cycles of 400 years or by leap years. -/
theorem days_of_years (year : Int) :
    year / 400 * daysPerCycle + year % 400 * 365 + year % 400 / 4 - year % 400 / 100 =
      365 * year + (year / 4 - year / 100 + year / 400) := by
  unfold daysPerCycle
  omega

theorem leapYears_succ (year : Int) :
    year / 4 - year / 100 + year / 400 =
      (year - 1) / 4 - (year - 1) / 100 + (year - 1) / 400 +
        if isLeapYear year = true then 1 else 0 := by
  simp only [isLeapYear, Bool.and_eq_true, Bool.or_eq_true, decide_eq_true_iff]
  split <;> omega

/-- The number of a day is that of the days before it. -/
theorem toDays_eq_dayNumber {c : Civil} (hlo : 1 ≤ c.month) (hhi : c.month ≤ 12) :
    c.toDays = c.dayNumber := by
  obtain ⟨year, month, day⟩ := c
  dsimp only at hlo hhi
  simp only [toDays, dayNumber, epochOffset]
  by_cases hearly : month ≤ 2
  · rw [if_pos hearly, days_of_years]
    interval_cases month <;> simp [daysBefore, daysInMonth] <;> omega
  · -- from March on the leap day of the year itself is among the days before
    rw [if_neg hearly, days_of_years, leapYears_succ]
    interval_cases month <;> simp [daysBefore, daysInMonth] at hearly ⊢ <;> split <;> omega

theorem daysInMonth_le (year : Int) (month : Nat) : daysInMonth year month ≤ 31 := by
  unfold daysInMonth
  repeat' split
  all_goals omega

/-- A day of the calendar lies in one of twelve months. -/
theorem bounds_of_isValid {c : Civil} (h : c.isValid = true) :
    1 ≤ c.month ∧ c.month ≤ 12 ∧ 1 ≤ c.day ∧ c.day ≤ 31 := by
  rw [isValid, Bool.and_eq_true, decide_eq_true_iff, decide_eq_true_iff] at h
  have hle := daysInMonth_le c.year c.month
  have hmonth : daysInMonth c.year c.month ≠ 0 := by omega
  have hin : 1 ≤ c.month ∧ c.month ≤ 12 := by
    unfold daysInMonth at hmonth
    split at hmonth <;> omega
  exact ⟨hin.1, hin.2, h.1, by omega⟩

theorem daysBefore_le (year : Int) (month : Nat) : daysBefore year month ≤ 31 * month := by
  induction month with
  | zero => exact Nat.le_refl 0
  | succ month ih =>
    have hle := daysInMonth_le year month
    rw [daysBefore]
    omega

/-- The days of the years of four digits are well within the supported range. -/
theorem dayNumber_bounds {c : Civil} (h : c.isValid = true) (hlo : 0 ≤ c.year)
    (hhi : c.year ≤ 9999) : -800000 ≤ c.dayNumber ∧ c.dayNumber ≤ 3000000 := by
  obtain ⟨-, hmonth, -, hday⟩ := bounds_of_isValid h
  have hbefore := daysBefore_le c.year c.month
  unfold dayNumber
  omega

/-! ## The year of a day -/

/-- The number of days of a cycle of 400 years before its year `y`, where years begin in March. -/
def yearStart (y : Nat) : Nat := 365 * y + y / 4 - y / 100 + y / 400

/-- The year of a cycle to which a day of the cycle belongs. -/
def yearOf (day : Nat) : Nat := (day - day / 1460 + day / 36524 - day / 146096) / 365

/-- The first and the last day of each year belong to it. -/
theorem yearOf_ends : ∀ y < 400,
    yearOf (yearStart y) = y ∧ yearOf (yearStart (y + 1) - 1) = y := by decide +kernel

theorem yearOf_mono {a b : Nat} (hab : a ≤ b) (hb : b < 146097) : yearOf a ≤ yearOf b := by
  induction hab with
  | refl => exact Nat.le_refl _
  | @step b _ ih =>
    refine Nat.le_trans (ih (by omega)) ?_
    unfold yearOf
    omega

/-- A day of a cycle lies in the span of its year. -/
theorem yearOf_spec {day : Nat} (h : day < 146097) :
    yearOf day < 400 ∧ yearStart (yearOf day) ≤ day ∧ day < yearStart (yearOf day + 1) := by
  have hlt : yearOf day < 400 := by
    unfold yearOf
    omega
  refine ⟨hlt, ?_, ?_⟩
  · -- a day before the year would belong to the year before, as the last day of that does
    by_contra hbefore
    obtain ⟨y, hy⟩ : ∃ y, yearOf day = y + 1 := by
      refine Nat.exists_eq_succ_of_ne_zero fun hzero => ?_
      rw [hzero] at hbefore
      exact hbefore (Nat.zero_le day)
    rw [hy] at hbefore hlt
    have hlast := (yearOf_ends y (by omega)).2
    have hmono := yearOf_mono (a := day) (b := yearStart (y + 1) - 1) (by omega)
      (by unfold yearStart; omega)
    omega
  · by_contra hafter
    rcases Nat.lt_or_ge (yearOf day + 1) 400 with hnext | hend
    · have hfirst := (yearOf_ends _ hnext).1
      have hmono := yearOf_mono (Nat.le_of_not_lt hafter) h
      omega
    · have hy : yearOf day + 1 = 400 := by omega
      rw [hy] at hafter
      exact hafter h

/-- Only in a leap year is there a day behind 365 others: the leap day, which is the last day of a
year that begins in March. -/
theorem day_of_lt_yearStart {cycle : Int} {y day : Nat} (hy : y < 400)
    (h : day < yearStart (y + 1) - yearStart y) :
    day < 365 ∨ day = 365 ∧ isLeapYear (400 * cycle + y + 1) = true := by
  have hfour : (y + 1) / 4 = y / 4 ∨ (y + 1) / 4 = y / 4 + 1 ∧ (y + 1) % 4 = 0 := by omega
  have hcentury : (y + 1) / 100 = y / 100 ∧ (y + 1) % 100 ≠ 0 ∨
      (y + 1) / 100 = y / 100 + 1 := by omega
  have hcycle : (y + 1) / 400 = y / 400 ∨ (y + 1) / 400 = y / 400 + 1 ∧ y = 399 := by omega
  unfold yearStart at h
  rw [isLeapYear, Bool.and_eq_true, Bool.or_eq_true, decide_eq_true_iff, decide_eq_true_iff,
    decide_eq_true_iff]
  omega

/-! ## The day at a number -/

/-- The day at a place, from zero on, of a year that begins in the March of `year`. -/
def inMarchYear (year : Int) (place : Nat) : Civil :=
  let month := (5 * place + 2) / 153
  let day := place - (153 * month + 2) / 5 + 1
  if month < 10 then ⟨year, month + 3, day⟩ else ⟨year + 1, month - 9, day⟩

/-- The day at a number of days lies in a year of a cycle, at a place that the year has. -/
theorem ofDays_eq (n : Int) : ∃ (cycle : Int) (y place : Nat), y < 400 ∧
    (place < 365 ∨ place = 365 ∧ isLeapYear (400 * cycle + y + 1) = true) ∧
    n + epochOffset = daysPerCycle * cycle + yearStart y + place ∧
    ofDays n = inMarchYear (400 * cycle + y) place := by
  obtain ⟨r, hr⟩ : ∃ r : Nat, (n + epochOffset) % daysPerCycle = r :=
    Int.eq_ofNat_of_zero_le (Int.emod_nonneg _ (by decide))
  have hlt : r < 146097 := by
    unfold daysPerCycle at hr
    omega
  have hn : n + epochOffset = daysPerCycle * ((n + epochOffset) / daysPerCycle) + r := by
    unfold daysPerCycle at hr ⊢
    omega
  obtain ⟨hy, hlo, hhi⟩ := yearOf_spec hlt
  have hyear : ((r : Int) - r / 1460 + r / 36524 - r / 146096) / 365 = yearOf r := by
    unfold yearOf
    omega
  generalize yearOf r = y at hy hlo hhi hyear
  obtain ⟨place, rfl⟩ := Nat.exists_eq_add_of_le hlo
  have hplace : ((yearStart y + place : Nat) : Int) - (365 * y + y / 4 - y / 100) = place := by
    unfold yearStart
    omega
  have hmonth : (5 * (place : Int) + 2) / 153 = ((5 * place + 2) / 153 : Nat) := by omega
  refine ⟨(n + epochOffset) / daysPerCycle, y, place, hy, day_of_lt_yearStart hy (by omega), by omega,
    ?_⟩
  simp only [ofDays, hr, hyear, hplace, hmonth, inMarchYear]
  by_cases hten : (5 * place + 2) / 153 < 10
  · rw [if_pos (by omega), if_pos hten]
    congr 1 <;> omega
  · rw [if_neg (by omega), if_neg hten]
    congr 1 <;> omega

/-- The places of a year are days of the calendar. -/
theorem isValid_inMarchYear {year : Int} {place : Nat}
    (h : place < 365 ∨ place = 365 ∧ isLeapYear (year + 1) = true) :
    (inMarchYear year place).isValid = true := by
  obtain ⟨m, hm⟩ : ∃ m, (5 * place + 2) / 153 = m := ⟨_, rfl⟩
  have hlast : m ≤ 11 := by omega
  simp only [inMarchYear, hm, isValid]
  rcases Nat.lt_or_ge m 11 with hlt | hge
  · interval_cases m <;> simp [daysInMonth] <;> omega
  · have hfebruary : m = 11 := by omega
    subst hfebruary
    simp only [daysInMonth, Nat.reduceLT, Nat.reduceMul, Nat.reduceAdd, Nat.reduceDiv, Nat.reduceSub,
      if_false, Bool.and_eq_true, decide_eq_true_iff]
    split
    · omega
    · rename_i hcommon
      have hlt : place < 365 := h.resolve_right fun hlast => hcommon hlast.2
      omega

theorem toDays_inMarchYear {cycle : Int} {y place : Nat} (hy : y < 400) (hplace : place ≤ 365) :
    (inMarchYear (400 * cycle + y) place).toDays =
      daysPerCycle * cycle + yearStart y + place - epochOffset := by
  have hcycle : (400 * cycle + (y : Int)) / 400 = cycle := by omega
  have hyear : (400 * cycle + (y : Int)) % 400 = y := by omega
  obtain ⟨m, hm⟩ : ∃ m, (5 * place + 2) / 153 = m := ⟨_, rfl⟩
  simp only [inMarchYear, hm, toDays, daysPerCycle, epochOffset, yearStart]
  by_cases hten : m < 10
  · have hmonth : (((m + 3 : Nat) : Int) + 9) % 12 = m := by omega
    simp only [if_pos hten]
    rw [if_neg (by omega), hcycle, hyear, hmonth]
    omega
  · have hmonth : (((m - 9 : Nat) : Int) + 9) % 12 = m := by omega
    simp only [if_neg hten]
    rw [if_pos (by omega), Int.add_sub_cancel, hcycle, hyear, hmonth]
    omega

/-- The day at a number has this number. -/
theorem toDays_ofDays (n : Int) : (ofDays n).toDays = n := by
  obtain ⟨cycle, y, place, hy, hplace, hn, hday⟩ := ofDays_eq n
  rw [hday, toDays_inMarchYear hy (by omega)]
  omega

/-- The day at a number is one that the calendar has. -/
theorem isValid_ofDays (n : Int) : (ofDays n).isValid = true := by
  obtain ⟨cycle, y, place, -, hplace, -, hday⟩ := ofDays_eq n
  rw [hday]
  exact isValid_inMarchYear hplace

/-- The years of four digits are a span of days. -/
theorem year_ofDays_iff (n : Int) : (0 ≤ (ofDays n).year ∧ (ofDays n).year ≤ 9999) ↔
    -719528 ≤ n ∧ n ≤ 2932896 := by
  obtain ⟨cycle, y, place, hy, hplace, hn, hday⟩ := ofDays_eq n
  have hyear : (ofDays n).year = 400 * cycle + y + if place < 306 then 0 else 1 := by
    rw [hday]
    simp only [inMarchYear]
    by_cases hten : (5 * place + 2) / 153 < 10
    · rw [if_pos hten, if_pos (by omega)]
      exact (Int.add_zero _).symm
    · rw [if_neg hten, if_neg (by omega)]
  have hyear' : y / 400 = 0 := by omega
  rw [hyear]
  unfold epochOffset daysPerCycle yearStart at hn
  -- day 306 of a year that begins in March is the first of January
  have hlast : y = 399 ∨ y < 399 := by omega
  have hcycle : cycle < 0 ∨ 0 ≤ cycle ∧ cycle ≤ 24 ∨ 24 < cycle := by omega
  rcases hcycle with hcycle | hcycle | hcycle <;> rcases hlast with rfl | hlast <;> split <;> omega

end Civil

theorem Date.ofCivil?_eq_some_iff {c : Civil} {d : Date} :
    ofCivil? c = some d ↔ c.isValid = true ∧ d.days = c.dayNumber := by
  unfold ofCivil?
  split
  · rename_i hvalid
    obtain ⟨hlo, hhi, -, -⟩ := Civil.bounds_of_isValid hvalid
    rw [ofDays?_eq_some_iff, Civil.toDays_eq_dayNumber hlo hhi, and_iff_right hvalid]
  · rename_i hvalid
    exact iff_of_false nofun fun h => hvalid h.1

/-- A date is that of its year, month and day. -/
theorem Date.ofCivil?_civil (d : Date) : Date.ofCivil? d.civil = some d := by
  rw [ofCivil?, civil, if_pos (Civil.isValid_ofDays d.days), Civil.toDays_ofDays, ofDays?_days]

end CqlWire
