import Call45Aggr.Library.Tiling
import Mathlib.Tactic.IntervalCases
import Mathlib.Algebra.Order.Group.Unbundled.Int

/-! Day counts of the proleptic Gregorian calendar. -/
namespace Call45Aggr.Library.Calendar

def isLeapYear (year : Int) : Bool :=
  year % 4 = 0 && (year % 100 ≠ 0 || year % 400 = 0)

def daysBeforeYear (year : Int) : Int :=
  365 * (year - 1) + (year - 1) / 4 - (year - 1) / 100 + (year - 1) / 400

def daysBeforeMonth : Nat → Int
  | 0 => 0
  | 1 => 31
  | 2 => 59
  | 3 => 90
  | 4 => 120
  | 5 => 151
  | 6 => 181
  | 7 => 212
  | 8 => 243
  | 9 => 273
  | 10 => 304
  | _ => 334

/-- Days from 1970-01-01 to day `day` of month `month` (0 for January) of `year`. -/
def dayNumber (year : Int) (month : Nat) (day : Int) : Int :=
  daysBeforeYear year - daysBeforeYear 1970 + daysBeforeMonth month +
    (if isLeapYear year && decide (2 ≤ month) then 1 else 0) + (day - 1)

def daysInMonth (year : Int) : Nat → Int
  | 1 => if isLeapYear year then 29 else 28
  | 3 | 5 | 8 | 10 => 30
  | _ => 31

structure ValidDate (year : Int) (month : Nat) (day : Int) : Prop where
  inYear : month < 12
  first : 1 ≤ day
  last : day ≤ daysInMonth year month

theorem daysBeforeYear_succ (year : Int) :
    daysBeforeYear (year + 1) = daysBeforeYear year + 365 + if isLeapYear year then 1 else 0 := by
  unfold daysBeforeYear isLeapYear
  split
  next leap =>
    simp only [Bool.and_eq_true,Bool.or_eq_true,decide_eq_true_eq] at leap
    omega
  next common =>
    simp only [Bool.and_eq_true,Bool.or_eq_true,decide_eq_true_eq] at common
    omega

theorem daysBeforeYear_mono {year later : Int} (before : year ≤ later) :
    daysBeforeYear year ≤ daysBeforeYear later := by
  unfold daysBeforeYear
  omega

/-- Days of the year before a month. -/
def offset (year : Int) (month : Nat) : Int :=
  daysBeforeMonth month + if isLeapYear year && decide (2 ≤ month) then 1 else 0

theorem dayNumber_eq (year : Int) (month : Nat) (day : Int) :
    dayNumber year month day = daysBeforeYear year - daysBeforeYear 1970 + offset year month + (day - 1) := by
  unfold dayNumber offset
  omega

theorem offset_succ (year : Int) {month : Nat} (inside : month < 11) :
    offset year (month + 1) = offset year month + daysInMonth year month := by
  cases leap : isLeapYear year <;> interval_cases month <;> simp [offset,daysBeforeMonth,daysInMonth,leap]

theorem daysInMonth_pos (year : Int) (month : Nat) : 0 < daysInMonth year month := by
  unfold daysInMonth
  split <;> omega

theorem offset_next (year : Int) {month later : Nat} (before : month < later) (inside : later < 12) :
    offset year month + daysInMonth year month ≤ offset year later := by
  induction later, before using Nat.le_induction with
  | base => rw [offset_succ year (by omega)]
  | succ later _ ih =>
    have smaller := ih (by omega)
    have days := daysInMonth_pos year later
    rw [offset_succ year (by omega)]
    omega

theorem offset_year (year : Int) {month : Nat} (inside : month < 12) :
    0 ≤ offset year month ∧
      offset year month + daysInMonth year month ≤ 365 + if isLeapYear year then 1 else 0 := by
  cases leap : isLeapYear year <;> interval_cases month <;> simp [offset,daysBeforeMonth,daysInMonth,leap]

/-- Days are numbered in the order of year, month and day. -/
theorem dayNumber_lt {year later : Int} {month month' : Nat} {day day' : Int}
    (valid : ValidDate year month day) (valid' : ValidDate later month' day')
    (before : year < later ∨ year = later ∧ (month < month' ∨ month = month' ∧ day < day')) :
    dayNumber year month day < dayNumber later month' day' := by
  have last := valid.last
  have first := valid'.first
  rw [dayNumber_eq,dayNumber_eq]
  rcases before with years | ⟨rfl,months | ⟨rfl,days⟩⟩
  · have next := daysBeforeYear_succ year
    have years := daysBeforeYear_mono (Int.add_one_le_iff.mpr years)
    have inside := (offset_year year valid.inYear).2
    have start := (offset_year later valid'.inYear).1
    omega
  · have months := offset_next year months valid'.inYear
    omega
  · omega

/-- The year of a day number, from the mean length of a year. -/
def yearOf (days : Int) : Int :=
  let year := 400 * (days + daysBeforeYear 1970) / 146097 + 1
  if daysBeforeYear (year + 1) ≤ days + daysBeforeYear 1970 then year + 1 else year

/-- The last month up to `month` that begins by a day of the year. -/
def monthFrom (year yday : Int) : Nat → Nat
  | 0 => 0
  | month + 1 => if yday < offset year (month + 1) then monthFrom year yday month else month + 1

def dayOfYear (days : Int) : Int := days + daysBeforeYear 1970 - daysBeforeYear (yearOf days)

def monthOf (days : Int) : Nat := monthFrom (yearOf days) (dayOfYear days) 11

def dayOf (days : Int) : Int := dayOfYear days - offset (yearOf days) (monthOf days) + 1

theorem dayOfYear_inside (days : Int) :
    0 ≤ dayOfYear days ∧ dayOfYear days < 365 + if isLeapYear (yearOf days) then 1 else 0 := by
  have next := daysBeforeYear_succ (yearOf days)
  have between : daysBeforeYear (yearOf days) ≤ days + daysBeforeYear 1970 ∧
      days + daysBeforeYear 1970 < daysBeforeYear (yearOf days + 1) := by
    unfold yearOf
    generalize days + daysBeforeYear 1970 = n
    dsimp only
    split
    next later =>
      refine ⟨later,?_⟩
      unfold daysBeforeYear
      omega
    next same =>
      refine ⟨?_,not_le.mp same⟩
      unfold daysBeforeYear
      omega
  unfold dayOfYear
  omega

theorem monthFrom_inside {year yday : Int} (begun : 0 ≤ yday) {month : Nat} (inside : month < 12)
    (before : yday < offset year month + daysInMonth year month) :
    monthFrom year yday month < 12 ∧ offset year (monthFrom year yday month) ≤ yday ∧
      yday < offset year (monthFrom year yday month) + daysInMonth year (monthFrom year yday month) := by
  induction month with
  | zero =>
    have january : offset year 0 = 0 := by simp [offset,daysBeforeMonth]
    exact ⟨inside,january ▸ begun,before⟩
  | succ month ih =>
    rw [monthFrom]
    split
    next earlier =>
      rw [offset_succ year (by omega)] at earlier
      exact ih (by omega) earlier
    next reached => exact ⟨inside,not_lt.mp reached,before⟩

theorem civil_valid (days : Int) : ValidDate (yearOf days) (monthOf days) (dayOf days) := by
  obtain ⟨begun,ended⟩ := dayOfYear_inside days
  have december : dayOfYear days < offset (yearOf days) 11 + daysInMonth (yearOf days) 11 := by
    cases leap : isLeapYear (yearOf days) <;> simp [offset,daysBeforeMonth,daysInMonth,leap] at ended ⊢ <;> omega
  obtain ⟨inYear,first,last⟩ := monthFrom_inside begun (by decide) december
  refine ⟨inYear,?_,?_⟩ <;> unfold dayOf monthOf <;> omega

/-- The date of a day number. -/
theorem dayNumber_civil (days : Int) : dayNumber (yearOf days) (monthOf days) (dayOf days) = days := by
  rw [dayNumber_eq,dayOf,dayOfYear]
  omega

theorem date_unique {year other : Int} {month month' : Nat} {day day' : Int} (valid : ValidDate year month day)
    (valid' : ValidDate other month' day') (same : dayNumber year month day = dayNumber other month' day') :
    year = other ∧ month = month' ∧ day = day' := by
  have before : ¬(year < other ∨ year = other ∧ (month < month' ∨ month = month' ∧ day < day')) :=
    fun order => (dayNumber_lt valid valid' order).ne same
  have behind : ¬(other < year ∨ other = year ∧ (month' < month ∨ month' = month ∧ day' < day)) :=
    fun order => (dayNumber_lt valid' valid order).ne same.symm
  omega

theorem civil_unique {year : Int} {month : Nat} {day : Int} (valid : ValidDate year month day) :
    yearOf (dayNumber year month day) = year ∧ monthOf (dayNumber year month day) = month ∧
      dayOf (dayNumber year month day) = day :=
  date_unique (civil_valid _) valid (dayNumber_civil _)

theorem dayNumber_day (year : Int) (month : Nat) (day : Int) :
    dayNumber year month day = dayNumber year month 1 + (day - 1) := by
  unfold dayNumber
  omega

theorem valid_first {year : Int} {month : Nat} (inYear : month < 12) : ValidDate year month 1 :=
  ⟨inYear,le_rfl,Int.add_one_le_iff.mpr (daysInMonth_pos year month)⟩

theorem first_next (year : Int) {month : Nat} (inside : month < 11) :
    dayNumber year (month + 1) 1 = dayNumber year month (daysInMonth year month) + 1 := by
  rw [dayNumber_eq,dayNumber_eq,offset_succ year inside]
  omega

theorem first_next_year (year : Int) :
    dayNumber (year + 1) 0 1 = dayNumber year 11 (daysInMonth year 11) + 1 := by
  rw [dayNumber_eq,dayNumber_eq,daysBeforeYear_succ]
  cases leap : isLeapYear year <;> simp [offset,daysBeforeMonth,daysInMonth,leap] <;> omega

/-- The months as periods of days. -/
theorem months : Tiling (fun days => dayNumber (yearOf days) (monthOf days) 1)
    (fun days => dayNumber (yearOf days) (monthOf days) (daysInMonth (yearOf days) (monthOf days))) where
  begun days := by
    have number := dayNumber_civil days
    have first := (civil_valid days).first
    rw [dayNumber_day] at number
    omega
  lasting days := by
    have number := dayNumber_civil days
    have last := (civil_valid days).last
    rw [dayNumber_day] at number ⊢
    omega
  same s days := by
    intro before behind
    have inYear := (civil_valid days).inYear
    have number := dayNumber_day (yearOf days) (monthOf days)
      (s - dayNumber (yearOf days) (monthOf days) 1 + 1)
    have valid : ValidDate (yearOf days) (monthOf days) (s - dayNumber (yearOf days) (monthOf days) 1 + 1) := by
      rw [dayNumber_day _ _ (daysInMonth _ _)] at behind
      exact ⟨inYear,by omega,by omega⟩
    obtain ⟨year,month,-⟩ := civil_unique valid
    have self : dayNumber (yearOf days) (monthOf days) (s - dayNumber (yearOf days) (monthOf days) 1 + 1) = s := by
      rw [number]
      omega
    rw [self] at year month
    rw [year,month]
  finish_eq s days := by
    intro equal
    obtain ⟨year,month,-⟩ := date_unique (valid_first (civil_valid s).inYear) (valid_first (civil_valid days).inYear) equal
    rw [year,month]

end Call45Aggr.Library.Calendar
