import Mathlib.Tactic.ByContra
import Muster.Time.Calendar

-- Every day has one date: the date of a day number is a date of the calendar, and its number is the
-- day number again.
namespace Muster.Date

-- Days of a cycle of 400 years before a year of it. Years start in March.
def daysBefore (year : Nat) : Nat := 365 * year + year / 4 - year / 100 + year / 400

theorem daysBefore_mono {a b : Nat} (h : a ≤ b) : daysBefore a ≤ daysBefore b := by
  rcases Nat.eq_or_lt_of_le h with rfl | hlt
  · exact Nat.le_refl _
  · unfold daysBefore
    omega

def yearOfCycle (day : Nat) : Nat := (day - day / 1460 + day / 36524 - day / 146096) / 365

theorem yearOfCycle_mono {a b : Nat} (h : a ≤ b) : yearOfCycle a ≤ yearOfCycle b := by
  have hstep : ∀ day, yearOfCycle day ≤ yearOfCycle (day + 1) := by
    intro day
    have hfour : day / 146096 = day / 36524 / 4 := (Nat.div_div_eq_div_mul day 36524 4).symm
    have hfour' : (day + 1) / 146096 = (day + 1) / 36524 / 4 := (Nat.div_div_eq_div_mul (day + 1) 36524 4).symm
    have hshort : (day + 1) / 1460 ≤ day / 1460 + 1 := by omega
    have hcentury : (day + 1) / 36524 = day / 36524 ∨ (day + 1) / 36524 = day / 36524 + 1 := by omega
    have hless : day / 1460 ≤ day := Nat.div_le_self day 1460
    apply Nat.div_le_div_right
    rw [hfour, hfour']
    generalize day / 36524 = century at hcentury ⊢
    generalize (day + 1) / 36524 = century' at hcentury ⊢
    omega
  induction h with
  | refl => exact Nat.le_refl _
  | step _ ih => exact Nat.le_trans ih (hstep _)

-- The formula is right at the first and at the last day of each year.
theorem yearOfCycle_ends : ∀ year < 400,
    yearOfCycle (daysBefore year) = year ∧ yearOfCycle (daysBefore (year + 1) - 1) = year := by
  decide +kernel

theorem exists_year {day : Nat} (limit : Nat) (h : day < daysBefore limit) :
    ∃ year < limit, daysBefore year ≤ day ∧ day < daysBefore (year + 1) := by
  induction limit with
  | zero => exact absurd h (Nat.not_lt_zero day)
  | succ limit ih =>
    by_cases hlt : day < daysBefore limit
    · obtain ⟨year, hyear, hbounds⟩ := ih hlt
      exact ⟨year, Nat.lt_succ_of_lt hyear, hbounds⟩
    · exact ⟨limit, Nat.lt_succ_self limit, Nat.le_of_not_lt hlt, h⟩

theorem yearOfCycle_spec {day : Nat} (h : day < 146097) :
    yearOfCycle day < 400 ∧ daysBefore (yearOfCycle day) ≤ day ∧ day < daysBefore (yearOfCycle day + 1) := by
  obtain ⟨year, hyear, hfirst, hlast⟩ := exists_year 400 h
  obtain ⟨hfirst', hlast'⟩ := yearOfCycle_ends year hyear
  have hlow := yearOfCycle_mono hfirst
  have hhigh := yearOfCycle_mono (Nat.le_sub_one_of_lt hlast)
  have heq : yearOfCycle day = year := by omega
  rw [heq]
  exact ⟨hyear, hfirst, hlast⟩

-- Months are counted from March. Only the last day of a leap year is a twenty-ninth of February.
theorem month_of_day : ∀ day < 366,
    (5 * day + 2) / 153 < 12 ∧ (153 * ((5 * day + 2) / 153) + 2) / 5 ≤ day ∧
      day - (153 * ((5 * day + 2) / 153) + 2) / 5 <
        daysInMonth (if day = 365 then 4 else 1) (((5 * day + 2) / 153 + 2) % 12 + 1) ∧
      ((5 * day + 2) / 153 < 10 ↔ day < 306) := by
  decide +kernel

theorem daysInMonth_eq (year : Int) (month : Nat) :
    daysInMonth year month = if month = 2 then (if isLeap year then 29 else 28) else daysInMonth 1 month := by
  unfold daysInMonth
  split
  · rfl
  · rfl
  · rfl
  · rfl
  · rfl
  · next hfebruary _ _ _ _ => rw [if_neg fun h => hfebruary h]

theorem isLeap_cycle (cycle year : Int) : isLeap (cycle * 400 + year) = isLeap year := by
  have hfour : (cycle * 400 + year) % 4 = year % 4 := by omega
  have hcentury : (cycle * 400 + year) % 100 = year % 100 := by omega
  have hcycle : (cycle * 400 + year) % 400 = year % 400 := by omega
  rw [isLeap, hfour, hcentury, hcycle, isLeap]

-- A year that starts in March ends with the leap day of the next one.
theorem daysBefore_succ : ∀ year < 400,
    daysBefore (year + 1) = daysBefore year + if isLeap ((year : Int) + 1) then 366 else 365 := by
  decide +kernel

-- A day number is so many whole cycles, whole years of a cycle and days of a year.
theorem exists_parts (number : Int) :
    ∃ (cycle : Int) (year day : Nat), year < 400 ∧ day < daysBefore (year + 1) - daysBefore year ∧
      number + 719468 = cycle * 146097 + daysBefore year + day ∧
      ofDayNumber number =
        if (5 * day + 2) / 153 < 10 then
          ⟨cycle * 400 + year, (5 * day + 2) / 153 + 3, day - (153 * ((5 * day + 2) / 153) + 2) / 5 + 1⟩
        else
          ⟨cycle * 400 + year + 1, (5 * day + 2) / 153 - 9, day - (153 * ((5 * day + 2) / 153) + 2) / 5 + 1⟩ := by
  have hnonneg := Int.emod_nonneg (number + 719468) (show (146097 : Int) ≠ 0 by decide)
  have hless := Int.emod_lt_of_pos (number + 719468) (show (0 : Int) < 146097 by decide)
  have hsplit := Int.emod_add_mul_ediv (number + 719468) 146097
  obtain ⟨dayOfCycle, hday⟩ := Int.eq_ofNat_of_zero_le hnonneg
  have hcycle : dayOfCycle < 146097 := by omega
  obtain ⟨hyear, hfirst, hlast⟩ := yearOfCycle_spec hcycle
  have hbefore : 365 * yearOfCycle dayOfCycle + yearOfCycle dayOfCycle / 4 - yearOfCycle dayOfCycle / 100 =
      daysBefore (yearOfCycle dayOfCycle) := by
    unfold daysBefore
    omega
  refine ⟨(number + 719468) / 146097, yearOfCycle dayOfCycle, dayOfCycle - daysBefore (yearOfCycle dayOfCycle),
    hyear, by omega, by omega, ?_⟩
  have hyearDef : (dayOfCycle - dayOfCycle / 1460 + dayOfCycle / 36524 - dayOfCycle / 146096) / 365 =
      yearOfCycle dayOfCycle := rfl
  have hmarch : (5 * (dayOfCycle - daysBefore (yearOfCycle dayOfCycle)) + 2) / 153 < 12 := by
    have hlen := daysBefore_succ (yearOfCycle dayOfCycle) hyear
    split at hlen <;> omega
  simp only [ofDayNumber, hday, Int.toNat_natCast, hyearDef, hbefore]
  generalize (5 * (dayOfCycle - daysBefore (yearOfCycle dayOfCycle)) + 2) / 153 = march at hmarch ⊢
  split
  · next hmarch =>
    rw [if_neg (by omega)]
    simp
  · next hmarch => rw [if_pos (by omega)]

theorem dayNumber_ofDayNumber (number : Int) : (ofDayNumber number).dayNumber = number := by
  obtain ⟨cycle, year, day, hyear, hday, hnumber, hdate⟩ := exists_parts number
  have hlen := daysBefore_succ year hyear
  obtain ⟨hmarch, hstart, -, -⟩ := month_of_day day (by split at hlen <;> omega)
  have hbefore : (365 * year + year / 4 - year / 100 + year / 400 : Nat) = daysBefore year := rfl
  rw [hdate]
  generalize (5 * day + 2) / 153 = march at hmarch hstart ⊢
  split
  · rw [dayNumber]
    dsimp only
    rw [if_neg (by omega), show (march + 3 + 9) % 12 = march by omega]
    omega
  · rw [dayNumber]
    dsimp only
    rw [if_pos (by omega), show (march - 9 + 9) % 12 = march by omega]
    omega

theorem isValid_iff (date : Date) :
    date.isValid = true ↔ (firstYear ≤ date.year ∧ date.year ≤ lastYear) ∧ (1 ≤ date.month ∧ date.month ≤ 12) ∧
      1 ≤ date.day ∧ date.day ≤ daysInMonth date.year date.month := by
  simp only [isValid, Bool.and_eq_true, decide_eq_true_eq, and_assoc]

theorem daysInMonth_le (year : Int) (month : Nat) : daysInMonth year month ≤ 31 := by
  unfold daysInMonth
  split
  · split <;> decide
  all_goals decide

-- The days from the first one of the calendar to the last one lie in its years.
theorem year_of_bounds (cycle : Int) {year : Nat} (day : Nat) (hyear : year < 400)
    (hfirst : (Date.mk firstYear 1 1).dayNumber + 719468 ≤ cycle * 146097 + daysBefore year + day)
    (hlast : cycle * 146097 + daysBefore year + day ≤ (Date.mk lastYear 12 31).dayNumber + 719468) :
    (day < 306 → firstYear ≤ cycle * 400 + year) ∧ (day < 366 → firstYear ≤ cycle * 400 + year + 1) ∧
      cycle * 400 + year ≤ lastYear ∧ (306 ≤ day → cycle * 400 + year + 1 ≤ lastYear) := by
  rw [show (Date.mk firstYear 1 1).dayNumber = -96465292 by decide] at hfirst
  rw [show (Date.mk lastYear 12 31).dayNumber = 95026236 by decide] at hlast
  rw [firstYear, lastYear]
  have hcycle := daysBefore_mono (Nat.le_of_lt hyear)
  rw [show daysBefore 400 = 146097 by decide] at hcycle
  have h255 : year ≤ 255 → daysBefore year ≤ 93136 := fun h => daysBefore_mono h
  have h256 : year ≤ 256 → daysBefore year ≤ 93502 := fun h => daysBefore_mono h
  have h142 : 142 ≤ year → 51864 ≤ daysBefore year := fun h => daysBefore_mono h
  have h143 : 143 ≤ year → 52229 ≤ daysBefore year := fun h => daysBefore_mono h
  omega

theorem isValid_ofDayNumber {number : Int} (hfirst : (Date.mk firstYear 1 1).dayNumber ≤ number)
    (hlast : number ≤ (Date.mk lastYear 12 31).dayNumber) : (ofDayNumber number).isValid = true := by
  obtain ⟨cycle, year, day, hyear, hday, hnumber, hdate⟩ := exists_parts number
  have hlen := daysBefore_succ year hyear
  have hyears : day < 366 := by split at hlen <;> omega
  obtain ⟨hmarch, hstart, hend, hspring⟩ := month_of_day day hyears
  obtain ⟨hlow, hlow', hhigh, hhigh'⟩ := year_of_bounds cycle day hyear (by omega) (by omega)
  rw [hdate]
  generalize (5 * day + 2) / 153 = march at hmarch hstart hend hspring ⊢
  split
  · next hshort =>
    rw [isValid_iff]
    dsimp only
    refine ⟨⟨hlow (hspring.mp hshort), hhigh⟩, by omega, by omega, ?_⟩
    rw [show (march + 2) % 12 + 1 = march + 3 by omega, daysInMonth_eq, if_neg (by omega)] at hend
    rw [daysInMonth_eq, if_neg (by omega)]
    omega
  · next hlong =>
    rw [isValid_iff]
    dsimp only
    refine ⟨⟨hlow' hyears, hhigh' (by omega)⟩, by omega, by omega, ?_⟩
    rw [show (march + 2) % 12 + 1 = march - 9 by omega, daysInMonth_eq] at hend
    rw [daysInMonth_eq]
    split at hend
    · next hfebruary =>
      rw [if_pos hfebruary, Int.add_assoc, isLeap_cycle]
      by_cases hleapDay : day = 365
      · -- The year has that many days only if it is a leap year.
        have hleap : isLeap ((year : Int) + 1) = true := by
          by_contra hplain
          rw [if_neg hplain] at hlen
          omega
        rw [if_pos hleap]
        rw [if_pos hleapDay, if_pos (by decide)] at hend
        omega
      · rw [if_neg hleapDay, if_neg (by decide)] at hend
        split <;> omega
    · next hother =>
      rw [if_neg hother]
      omega

end Muster.Date
