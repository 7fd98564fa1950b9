import Call45Aggr.Model
import Call45Aggr.DateTimeText
import Mathlib.Tactic.MkIffOfInductiveProp

/-! The order in which `MergeService` sorts legs by the text of `start_time`, against the instants the
texts stand for. -/
namespace Call45Aggr
open Library Library.Calendar Library.Decimal

/-- `legCompareByStartTime`; texts compare byte by byte. -/
def legCompareByStartTime (a b : CallLeg) : Bool := decide (a.startTime < b.startTime)

/-- A timestamp as PostgreSQL prints it in the zone `+00`. -/
structure Timestamp where
  year : Nat
  month : Nat
  day : Nat
  hour : Nat
  minute : Nat
  second : Nat
  fraction : List (Fin 10)
  since : 1970 ≤ year
  upTo : year ≤ 9999
  january : 1 ≤ month
  valid : ValidDate year (month - 1) day
  inDay : hour < 24
  inHour : minute < 60
  inMinute : second < 60
  trimmed : Trimmed fraction

namespace Timestamp

def fractionText (digits : List (Fin 10)) : List Char :=
  match digits with
  | [] => []
  | digits => '.' :: written digits

def chars (t : Timestamp) : List Char :=
  pad 4 t.year ++ '-' :: (pad 2 t.month ++ '-' :: (pad 2 t.day ++ ' ' :: (pad 2 t.hour ++
    ':' :: (pad 2 t.minute ++ ':' :: (pad 2 t.second ++ (fractionText t.fraction ++ ['+','0','0']))))))

def text (t : Timestamp) : String := String.ofList t.chars

example : text ⟨2024,2,29,23,59,59,[7,5],by decide,by decide,by decide,⟨by decide,by decide,by decide⟩,
    by decide,by decide,by decide,by decide⟩ = "2024-02-29 23:59:59.75+00" := by decide

/-- Whole seconds since 1970. -/
def seconds (t : Timestamp) : Int :=
  dayNumber t.year (t.month - 1) t.day * 86400 + t.hour * 3600 + t.minute * 60 + t.second

/-- Seconds since 1970. -/
def instant (t : Timestamp) : ℚ := t.seconds + Decimal.fraction t.fraction

/-- Earlier by the fields down to the second. -/
def Before (t other : Timestamp) : Prop :=
  t.year < other.year ∨ t.year = other.year ∧ (t.month < other.month ∨ t.month = other.month ∧
    (t.day < other.day ∨ t.day = other.day ∧ (t.hour < other.hour ∨ t.hour = other.hour ∧
      (t.minute < other.minute ∨ t.minute = other.minute ∧ t.second < other.second))))

@[mk_iff]
structure SameSecond (t other : Timestamp) : Prop where
  year : t.year = other.year
  month : t.month = other.month
  day : t.day = other.day
  hour : t.hour = other.hour
  minute : t.minute = other.minute
  second : t.second = other.second

theorem fractionText_lt_iff (digits other : List (Fin 10)) (rest : List Char) :
    fractionText digits ++ '+' :: rest < fractionText other ++ '+' :: rest ↔ digits < other := by
  cases digits with
  | nil =>
    cases other with
    | nil => simp [fractionText]
    | cons e other => simp [fractionText,List.cons_lt_cons_iff]
  | cons d digits =>
    cases other with
    | nil => simp [fractionText,List.cons_lt_cons_iff]
    | cons e other =>
      have same := written_lt_iff (by decide : '+' < '0') (d :: digits) (e :: other) rest
      simpa [fractionText,List.cons_lt_cons_iff] using same

theorem day_lt (t : Timestamp) : t.day < 10 ^ 2 := by
  have last := t.valid.last
  have days : daysInMonth t.year (t.month - 1) ≤ 31 := by
    unfold daysInMonth
    split <;> omega
  omega

theorem month_lt (t : Timestamp) : t.month < 10 ^ 2 := by
  have last := t.valid.inYear
  omega

theorem field_lt_iff (width : Nat) {m n : Nat} (first : m < 10 ^ width) (second : n < 10 ^ width)
    (separator : Char) (u v : List Char) :
    pad width m ++ separator :: u < pad width n ++ separator :: v ↔ m < n ∨ m = n ∧ u < v := by
  rw [pad_append_lt_iff width first second,List.cons_lt_cons_iff]
  simp

/-- The text is compared field by field, the fraction last. -/
theorem chars_lt_iff (t other : Timestamp) :
    t.chars < other.chars ↔ t.Before other ∨ t.SameSecond other ∧ t.fraction < other.fraction := by
  have fields : t.chars < other.chars ↔
      t.year < other.year ∨ t.year = other.year ∧ (t.month < other.month ∨ t.month = other.month ∧
        (t.day < other.day ∨ t.day = other.day ∧ (t.hour < other.hour ∨ t.hour = other.hour ∧
          (t.minute < other.minute ∨ t.minute = other.minute ∧ (t.second < other.second ∨
            t.second = other.second ∧ t.fraction < other.fraction))))) := by
    have hours := t.inDay
    have hours' := other.inDay
    have minutes := t.inHour
    have minutes' := other.inHour
    have seconds := t.inMinute
    have seconds' := other.inMinute
    have years := t.upTo
    have years' := other.upTo
    rw [chars,chars,field_lt_iff 4 (by omega) (by omega),field_lt_iff 2 t.month_lt other.month_lt,
      field_lt_iff 2 t.day_lt other.day_lt,field_lt_iff 2 (by omega) (by omega),
      field_lt_iff 2 (by omega) (by omega),pad_append_lt_iff 2 (by omega) (by omega),
      fractionText_lt_iff]
  rw [fields,Before,sameSecond_iff]
  simp only [and_or_left,or_assoc,and_assoc]

theorem seconds_lt {t other : Timestamp} (before : t.Before other) : t.seconds + 1 ≤ other.seconds := by
  have hours := t.inDay
  have minutes := t.inHour
  have seconds := t.inMinute
  by_cases sameDay : t.year = other.year ∧ t.month = other.month ∧ t.day = other.day
  · obtain ⟨year,month,day⟩ := sameDay
    have later : t.hour < other.hour ∨ t.hour = other.hour ∧ (t.minute < other.minute ∨
        t.minute = other.minute ∧ t.second < other.second) := by
      simpa [Before,year,month,day] using before
    rw [Timestamp.seconds,Timestamp.seconds,year,month,day]
    omega
  · have earlier : (t.year : Int) < other.year ∨ (t.year : Int) = other.year ∧
        (t.month - 1 < other.month - 1 ∨ t.month - 1 = other.month - 1 ∧ (t.day : Int) < other.day) := by
      have january := t.january
      have january' := other.january
      unfold Before at before
      omega
    have days := dayNumber_lt t.valid other.valid earlier
    unfold Timestamp.seconds
    omega

theorem seconds_same {t other : Timestamp} (same : t.SameSecond other) : t.seconds = other.seconds := by
  rw [Timestamp.seconds,Timestamp.seconds,same.year,same.month,same.day,same.hour,same.minute,same.second]

theorem instant_lt {t other : Timestamp} (before : t.Before other) : t.instant < other.instant := by
  have step : (t.seconds : ℚ) + 1 ≤ other.seconds := by exact_mod_cast seconds_lt before
  have high := fraction_lt_one t.fraction
  have low := fraction_nonneg other.fraction
  unfold instant
  linarith

theorem before_total (t other : Timestamp) : t.Before other ∨ t.SameSecond other ∨ other.Before t := by
  rw [sameSecond_iff]
  unfold Before
  omega

/-- Texts of timestamps compare as their instants. -/
theorem text_lt_iff (t other : Timestamp) : t.text < other.text ↔ t.instant < other.instant := by
  have ordered : t.text < other.text ↔ t.chars < other.chars := by
    rw [String.lt_iff_toList_lt,text,text,String.toList_ofList,String.toList_ofList]
  rw [ordered,chars_lt_iff]
  rcases before_total t other with before | same | after
  · exact iff_of_true (.inl before) (instant_lt before)
  · have never : ¬t.Before other := by
      intro before
      have less := seconds_lt before
      rw [seconds_same same] at less
      omega
    have instants : t.instant < other.instant ↔ t.fraction < other.fraction := by
      rw [← fraction_lt_iff t.trimmed other.trimmed,instant,instant,seconds_same same]
      exact add_lt_add_iff_left _
    rw [instants]
    simp [never,same]
  · refine iff_of_false ?_ (lt_asymm (instant_lt after))
    have more := seconds_lt after
    rintro (before | ⟨same,-⟩)
    · have less := seconds_lt before
      omega
    · rw [seconds_same same] at more
      omega

theorem fraction_stops (digits : List (Fin 10)) :
    ∀ c ∈ (fractionText digits ++ ['+','0','0']).head?, c.isDigit = false := by
  cases digits with
  | nil => simp [fractionText]
  | cons d digits => simp [fractionText]

/-- `parseDateTime` leaves out the fraction and what follows it. -/
theorem parseDateTime_text (ttt : Tm) (t : Timestamp) : parseDateTime ttt t.text = t.seconds := by
  have years := t.upTo
  have months := t.month_lt
  have days := t.day_lt
  have hours := t.inDay
  have minutes := t.inHour
  have seconds := t.inMinute
  have december := t.valid.inYear
  exact DateTimeText.parseDateTime_chars ttt (by omega) t.january (by omega) (by omega) (by omega) (by omega)
    (by omega) (fraction_stops t.fraction)

end Timestamp

/-- Legs are sorted by the instants their texts stand for, and `parseDateTime` agrees with the order. -/
theorem start_time_order (ttt : Tm) (a b : CallLeg) (t other : Timestamp) :
    (legCompareByStartTime {a with startTime := t.text} {b with startTime := other.text} = true ↔
      t.instant < other.instant) ∧
    (t.instant < other.instant → parseDateTime ttt t.text ≤ parseDateTime ttt other.text) := by
  have texts := t.text_lt_iff other
  refine ⟨by rw [legCompareByStartTime,decide_eq_true_iff,texts],?_⟩
  intro less
  rw [Timestamp.parseDateTime_text,Timestamp.parseDateTime_text]
  by_contra more
  have step : (other.seconds : ℚ) + 1 ≤ t.seconds := by exact_mod_cast Int.not_le.mp more
  have low := fraction_nonneg t.fraction
  have high := fraction_lt_one other.fraction
  unfold Timestamp.instant at less
  linarith

end Call45Aggr
