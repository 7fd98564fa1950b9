import Call45Aggr.DateTimeText
import Call45Aggr.Library.Tiling

/-! The days and months of a timezone, `get_day_ts`, `get_month_ts` and their ends, and
`string_time` with its way back through `parseDateTime`. -/
namespace Call45Aggr
open Library Calendar

/-- `gmtime_r`, with years of any size. -/
def gmtime (timestamp : Int) : Tm :=
  let days := timestamp / 86400
  let seconds := timestamp % 86400
  { year := yearOf days - 1900
    mon := monthOf days
    mday := dayOf days
    hour := seconds / 3600
    min := seconds % 3600 / 60
    sec := seconds % 60 }

def getDayTs (timestamp timezoneOffset : Int) : Int :=
  let timeinfo := gmtime (timestamp + 3600 * timezoneOffset)
  timegm {timeinfo with hour := 0,min := 0,sec := 0} - 3600 * timezoneOffset

def getDayEndTs (timestamp timezoneOffset : Int) : Int := getDayTs timestamp timezoneOffset + 86399

def getMonthTs (timestamp timezoneOffset : Int) : Int :=
  let timeinfo := gmtime (timestamp + 3600 * timezoneOffset)
  timegm {timeinfo with hour := 0,min := 0,sec := 0,mday := 1} - 3600 * timezoneOffset

/-- `++tm_mon` with the roll-over at the end of the year. -/
def nextMonth (timeinfo : Tm) : Tm :=
  if timeinfo.mon + 1 = 12 then {timeinfo with mon := 0,year := timeinfo.year + 1}
  else {timeinfo with mon := timeinfo.mon + 1}

def getMonthEndTs (timestamp timezoneOffset : Int) : Int :=
  let timeinfo := gmtime (timestamp + 3600 * timezoneOffset)
  timegm (nextMonth {timeinfo with hour := 0,min := 0,sec := 0,mday := 1}) - 1 - 3600 * timezoneOffset

theorem timegm_eq {tm : Tm} {month : Nat} (mon : tm.mon = month) (inYear : month < 12) :
    timegm tm = dayNumber (tm.year + 1900) month tm.mday * 86400 + tm.hour * 3600 + tm.min * 60 + tm.sec := by
  have year : tm.year + 1900 + tm.mon / 12 = tm.year + 1900 := by omega
  have same : (tm.mon % 12).toNat = month := by omega
  rw [timegm,year,same]

theorem timegm_gmtime (timestamp : Int) : timegm (gmtime timestamp) = timestamp := by
  rw [timegm_eq rfl (civil_valid (timestamp / 86400)).inYear]
  simp only [gmtime,sub_add_cancel]
  rw [dayNumber_civil]
  omega

theorem days_tile (timezoneOffset : Int) :
    Tiling (getDayTs · timezoneOffset) (getDayEndTs · timezoneOffset) := by
  have day (t : Int) : getDayTs t timezoneOffset =
      86400 * ((t + 3600 * timezoneOffset) / 86400) - 3600 * timezoneOffset := by
    rw [getDayTs,timegm_eq rfl (civil_valid _).inYear]
    simp only [gmtime,sub_add_cancel,dayNumber_civil]
    omega
  have tiling := (Tiling.single.scale (by decide : (0 : Int) < 86400)).shift (3600 * timezoneOffset)
  apply tiling.congr
  · exact day
  · intro t
    simp only [getDayEndTs,day,id]
    omega

theorem timegm_nextMonth (year : Int) {month : Nat} (inYear : month < 12) :
    timegm (nextMonth {year := year - 1900,mon := month,mday := 1}) =
      (dayNumber year month (daysInMonth year month) + 1) * 86400 := by
  by_cases december : month = 11
  · have rolled : nextMonth {year := year - 1900,mon := month,mday := 1} =
        {year := year - 1900 + 1,mon := (0 : Nat),mday := 1} := by simp [nextMonth,december]
    have next : year - 1900 + 1 + 1900 = year + 1 := by omega
    rw [rolled,timegm_eq rfl (by decide),december]
    simp only [next,first_next_year]
    omega
  · have inside : month < 11 := by omega
    have earlier : ¬(month : Int) + 1 = 12 := by omega
    have later : nextMonth {year := year - 1900,mon := month,mday := 1} =
        {year := year - 1900,mon := (month + 1 : Nat),mday := 1} := by simp [nextMonth,earlier]
    rw [later,timegm_eq rfl (by omega)]
    simp only [sub_add_cancel,first_next year inside]
    omega

theorem months_tile (timezoneOffset : Int) :
    Tiling (getMonthTs · timezoneOffset) (getMonthEndTs · timezoneOffset) := by
  have tiling := (Calendar.months.scale (by decide : (0 : Int) < 86400)).shift (3600 * timezoneOffset)
  apply tiling.congr
  · intro t
    simp only [getMonthTs]
    rw [timegm_eq rfl (civil_valid _).inYear]
    simp only [gmtime,sub_add_cancel]
    omega
  · intro t
    simp only [getMonthEndTs,gmtime,timegm_nextMonth _ (civil_valid _).inYear]
    omega

/-- In every timezone the days and the months tile the time line. -/
theorem periods_tile (t offset : Int) :
    (getDayTs t offset ≤ t ∧ t ≤ getDayEndTs t offset ∧ getMonthTs t offset ≤ t ∧ t ≤ getMonthEndTs t offset) ∧
    (getDayTs (getDayTs t offset) offset = getDayTs t offset ∧
      getMonthTs (getMonthTs t offset) offset = getMonthTs t offset) ∧
    (getDayTs (getDayEndTs t offset + 1) offset = getDayEndTs t offset + 1 ∧
      getMonthTs (getMonthEndTs t offset + 1) offset = getMonthEndTs t offset + 1) ∧
    ∀ s, (getDayTs s offset = getDayTs t offset ↔ getDayTs t offset ≤ s ∧ s ≤ getDayEndTs t offset) ∧
      (getMonthTs s offset = getMonthTs t offset ↔ getMonthTs t offset ≤ s ∧ s ≤ getMonthEndTs t offset) := by
  have days := days_tile offset
  have months := months_tile offset
  exact ⟨⟨days.begun _,days.lasting _,months.begun _,months.lasting _⟩,
    ⟨days.idempotent _,months.idempotent _⟩,⟨days.adjacent _,months.adjacent _⟩,
    fun s => ⟨days.start_eq_iff s t,months.start_eq_iff s t⟩⟩

/-- `strftime` with `%Y-%m-%d %H:%M:%S`. -/
def strftime (timeinfo : Tm) : List Char :=
  DateTimeText.chars (timeinfo.year + 1900).toNat (timeinfo.mon + 1).toNat timeinfo.mday.toNat timeinfo.hour.toNat
    timeinfo.min.toNat timeinfo.sec.toNat []

/-- Years that do not print in four digits become 1900. -/
def stringTime (dt : Int) : String :=
  let timeinfo := gmtime dt
  let timeinfo : Tm := if timeinfo.year < 0 ∨ 3000 < timeinfo.year then {mday := 1} else timeinfo
  String.ofList (strftime timeinfo)

example : stringTime 951827696 = "2000-02-29 12:34:56" := by decide

theorem parseDateTime_strftime (ttt timeinfo : Tm) {month : Nat} (mon : timeinfo.mon = month)
    (years : -1900 ≤ timeinfo.year ∧ timeinfo.year < 8100) (valid : ValidDate (timeinfo.year + 1900) month timeinfo.mday)
    (hours : 0 ≤ timeinfo.hour ∧ timeinfo.hour < 24) (minutes : 0 ≤ timeinfo.min ∧ timeinfo.min < 60)
    (seconds : 0 ≤ timeinfo.sec ∧ timeinfo.sec < 60) :
    parseDateTime ttt (String.ofList (strftime timeinfo)) = timegm timeinfo := by
  have inYear := valid.inYear
  have first := valid.first
  have last := valid.last
  have long : daysInMonth (timeinfo.year + 1900) month ≤ 31 := by
    unfold daysInMonth
    split
    · split <;> decide
    · decide
    all_goals decide
  have number : (timeinfo.mon + 1).toNat - 1 = month := by omega
  have parsed := DateTimeText.parseDateTime_chars ttt (by omega : (timeinfo.year + 1900).toNat < 10000)
    (by omega : 1 ≤ (timeinfo.mon + 1).toNat) (by omega) (by omega : timeinfo.mday.toNat < 100)
    (by omega : timeinfo.hour.toNat < 100) (by omega : timeinfo.min.toNat < 100)
    (by omega : timeinfo.sec.toNat < 100) (by simp : ∀ c ∈ ([] : List Char).head?, c.isDigit = false)
  rw [strftime,parsed,timegm_eq mon inYear,number,Int.toNat_of_nonneg (by omega),Int.toNat_of_nonneg (by omega),
    Int.toNat_of_nonneg hours.1,Int.toNat_of_nonneg minutes.1,Int.toNat_of_nonneg seconds.1]

/-- An instant of the years that are printed is read back from its text. -/
theorem parseDateTime_stringTime (ttt : Tm) (t : Int)
    (years : 1900 ≤ yearOf (t / 86400) ∧ yearOf (t / 86400) ≤ 4900) : parseDateTime ttt (stringTime t) = t := by
  have kept : ¬((gmtime t).year < 0 ∨ 3000 < (gmtime t).year) := by
    simp only [gmtime]
    omega
  have valid := civil_valid (t / 86400)
  have date : ValidDate ((gmtime t).year + 1900) (monthOf (t / 86400)) (gmtime t).mday := by
    simpa [gmtime] using valid
  simp only [stringTime,if_neg kept]
  rw [parseDateTime_strftime ttt _ rfl (by simp only [gmtime]; omega) date (by simp only [gmtime]; omega)
    (by simp only [gmtime]; omega) (by simp only [gmtime]; omega),timegm_gmtime]

theorem string_time_read : parseDateTime default (stringTime (-2203891201)) = -2203891201 ∧
    parseDateTime default (stringTime 951827696) = 951827696 :=
  ⟨parseDateTime_stringTime _ _ (by decide),parseDateTime_stringTime _ _ (by decide)⟩

end Call45Aggr
