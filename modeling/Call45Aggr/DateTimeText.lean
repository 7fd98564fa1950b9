import Call45Aggr.Common
import Call45Aggr.Library.Decimal

/-! Texts of date and time with fields of fixed widths, and how `sscanf` reads them. -/
namespace Call45Aggr
open Library Library.Decimal

namespace DateTimeText

/-- `%Y-%m-%d %H:%M:%S`. -/
def chars (year month day hour minute second : Nat) (rest : List Char) : List Char :=
  pad 4 year ++ '-' :: (pad 2 month ++ '-' :: (pad 2 day ++ ' ' :: (pad 2 hour ++
    ':' :: (pad 2 minute ++ ':' :: (pad 2 second ++ rest)))))

theorem digitsValue_append (digits : List Char) (d : Char) :
    digitsValue (digits ++ [d]) = digitsValue digits * 10 + (d.toNat - 48) := by
  simp [digitsValue]

theorem digitsValue_pad (width : Nat) {n : Nat} (fits : n < 10 ^ width) : digitsValue (pad width n) = n := by
  induction width generalizing n with
  | zero =>
    have zero : n = 0 := by simpa using fits
    rw [zero]
    rfl
  | succ width ih =>
    rw [pad,digitsValue_append,ih (by rw [Nat.pow_succ] at fits; omega),
      digit_toNat (Nat.mod_lt _ (by decide))]
    omega

theorem pad_digits (width n : Nat) : ∀ d ∈ pad width n, d.isDigit = true := by
  induction width generalizing n with
  | zero => simp [pad]
  | succ width ih =>
    intro d member
    rcases List.mem_append.mp member with before | last
    · exact ih _ d before
    · rw [List.mem_singleton.mp last]
      exact digit_isDigit (Nat.mod_lt _ (by decide))

theorem digit_begins {d : Char} (digit : d.isDigit = true) : isspace d = false ∧ d ≠ '-' ∧ d ≠ '+' := by
  have range : 48 ≤ d.toNat ∧ d.toNat ≤ 57 := by
    simpa [Char.isDigit,UInt32.le_iff_toNat_le] using digit
  have apart (other : Char) (outside : other.toNat < 48) : d ≠ other := by
    rintro rfl
    omega
  refine ⟨?_,apart '-' (by decide),apart '+' (by decide)⟩
  have blank := apart ' ' (by decide)
  simp only [isspace,blank,decide_false,Bool.false_or,decide_eq_false_iff_not]
  omega

theorem toInt_pad {width n : Nat} (fits : n < 10 ^ width) (small : n < 2147483648) :
    toInt false (pad width n) = n := by
  unfold toInt
  rw [digitsValue_pad width fits]
  simp only [Bool.false_eq_true,if_false,toInt32]
  rw [Int.min_eq_left (by omega),Int.bmod_def]
  omega

/-- A numeral ends where no digit follows. -/
theorem scanInt_pad {width n : Nat} (fits : n < 10 ^ (width + 1)) (small : n < 2147483648) {rest : List Char}
    (stop : ∀ c ∈ rest.head?, c.isDigit = false) :
    scanInt (pad (width + 1) n ++ rest) = some ((n : Int),rest) := by
  have digits := pad_digits (width + 1) n
  have value := toInt_pad fits small
  obtain ⟨none',all⟩ : rest.takeWhile Char.isDigit = [] ∧ rest.dropWhile Char.isDigit = rest := by
    cases rest with
    | nil => exact ⟨rfl,rfl⟩
    | cons c rest => simp [stop c rfl]
  have taken : (pad (width + 1) n ++ rest).takeWhile Char.isDigit = pad (width + 1) n := by
    rw [List.takeWhile_append_of_pos digits,none',List.append_nil]
  have dropped : (pad (width + 1) n ++ rest).dropWhile Char.isDigit = rest := by
    rw [List.dropWhile_append_of_pos digits,all]
  cases shape : pad (width + 1) n with
  | nil => simp [pad] at shape
  | cons d ds =>
    rw [shape] at digits value taken dropped
    obtain ⟨solid,unsigned,unsigned'⟩ := digit_begins (digits d (by simp))
    rw [List.cons_append] at taken dropped ⊢
    unfold scanInt
    rw [List.dropWhile_cons_of_neg (by simp [solid])]
    split
    next same => exact absurd (List.cons.inj same).1 unsigned
    next same => exact absurd (List.cons.inj same).1 unsigned'
    next => simp [scanDigits,taken,dropped,value]

theorem blank_pad (width n : Nat) (rest : List Char) :
    (' ' :: (pad (width + 1) n ++ rest)).dropWhile isspace = pad (width + 1) n ++ rest := by
  have digits := pad_digits (width + 1) n
  cases shape : pad (width + 1) n with
  | nil => simp [pad] at shape
  | cons d ds =>
    rw [shape] at digits
    have solid := (digit_begins (digits d (by simp))).1
    rw [List.dropWhile_cons_of_pos (by decide),List.cons_append,List.dropWhile_cons_of_neg (by simp [solid])]

/-- What follows the seconds is not read. -/
theorem sscanf_chars {year month day hour minute second : Nat} (years : year < 10000) (months : month < 100)
    (days : day < 100) (hours : hour < 100) (minutes : minute < 100) (seconds : second < 100) {rest : List Char}
    (stop : ∀ c ∈ rest.head?, c.isDigit = false) :
    sscanf dateTimeFormat (chars year month day hour minute second rest) =
      [(year : Int),month,day,hour,minute,second] := by
  have dash (rest : List Char) : ∀ d ∈ ('-' :: rest).head?, d.isDigit = false := by simp
  have blank (rest : List Char) : ∀ d ∈ (' ' :: rest).head?, d.isDigit = false := by simp
  have colon (rest : List Char) : ∀ d ∈ (':' :: rest).head?, d.isDigit = false := by simp
  simp only [chars,dateTimeFormat,sscanf]
  rw [scanInt_pad (by omega) (by omega) (dash _)]
  simp only [if_true]
  rw [scanInt_pad (by omega) (by omega) (dash _)]
  simp only [if_true]
  rw [scanInt_pad (by omega) (by omega) (blank _)]
  simp only [blank_pad]
  rw [scanInt_pad (by omega) (by omega) (colon _)]
  simp only [if_true]
  rw [scanInt_pad (by omega) (by omega) (colon _)]
  simp only [if_true]
  rw [scanInt_pad (by omega) (by omega) stop]

/-- The fields of a date are those of the instant that is parsed. -/
theorem parseDateTime_chars (ttt : Tm) {year month day hour minute second : Nat} (years : year < 10000)
    (january : 1 ≤ month) (months : month ≤ 12) (days : day < 100) (hours : hour < 100) (minutes : minute < 100)
    (seconds : second < 100) {rest : List Char} (stop : ∀ c ∈ rest.head?, c.isDigit = false) :
    parseDateTime ttt (String.ofList (chars year month day hour minute second rest)) =
      Calendar.dayNumber year (month - 1) day * 86400 + hour * 3600 + minute * 60 + second := by
  have quotient : ((month : Int) - 1) / 12 = 0 := by omega
  have remainder : (((month : Int) - 1) % 12).toNat = month - 1 := by omega
  unfold parseDateTime
  rw [String.toList_ofList,sscanf_chars years (by omega) days hours minutes seconds stop]
  simp only [List.getElem?_cons_zero,List.getElem?_cons_succ,Option.getD_some,timegm,quotient,remainder]
  rw [show (year : Int) - 1900 + 1900 + 0 = year by omega]

end DateTimeText
end Call45Aggr
