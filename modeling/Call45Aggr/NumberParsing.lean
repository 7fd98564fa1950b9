import Call45Aggr.DateTimeText
import Mathlib.Data.List.TakeWhile

/-! `numeric_cast` and `to` for the unsigned types and for each integer type, against the
decimal numerals that its texts are. `none` stands for the exception. -/
namespace Call45Aggr

def numericCast (bound src : Nat) : Option Nat := if src % bound = src then some src else none

/-- `strtoul` in base 10: the value, and what it did not read. -/
def strtoul (str : List Char) : Nat × List Char :=
  let scan (negative : Bool) (rest : List Char) : Nat × List Char :=
    match rest.takeWhile Char.isDigit with
    | [] => (0,str)
    | digits =>
      let value := digitsValue digits
      (if 18446744073709551616 ≤ value then 18446744073709551615
        else if negative then (18446744073709551616 - value) % 18446744073709551616 else value,
        rest.dropWhile Char.isDigit)
  match str.dropWhile isspace with
  | '-' :: rest => scan true rest
  | '+' :: rest => scan false rest
  | rest => scan false rest

/-- The text ends where its C string does. -/
def toNumber (bound : Nat) (str : String) : Option Nat :=
  let (value,rest) := strtoul (str.toList.takeWhile fun c => c != '\x00')
  if rest = [] then numericCast bound value else none

theorem numericCast_of_lt {bound src : Nat} (small : src < bound) : numericCast bound src = some src :=
  if_pos (Nat.mod_eq_of_lt small)

theorem numericCast_eq {bound src : Nat} (positive : 0 < bound) :
    numericCast bound src = if src < bound then some src else none := by
  unfold numericCast
  have iff : src % bound = src ↔ src < bound := Nat.mod_eq_iff_lt (Nat.ne_of_gt positive)
  simp only [iff]

inductive IntegerType
  | int
  | unsigned
  | unsignedShort
  | long
  | unsignedLong
  | longLong
  | unsignedLongLong
  deriving DecidableEq

namespace IntegerType

def isSigned : IntegerType → Bool
  | int | long | longLong => true
  | unsigned | unsignedShort | unsignedLong | unsignedLongLong => false

/-- One more than the greatest value of as many bits, without the sign. -/
def bound : IntegerType → Int
  | int => 2147483648
  | unsigned => 4294967296
  | unsignedShort => 65536
  | long | longLong => 9223372036854775808
  | unsignedLong | unsignedLongLong => 18446744073709551616

def low (type : IntegerType) : Int := if type.isSigned then -type.bound else 0

def Contains (type : IntegerType) (n : Int) : Prop := type.low ≤ n ∧ n < type.bound

instance (type : IntegerType) (n : Int) : Decidable (type.Contains n) := inferInstanceAs (Decidable (_ ∧ _))

/-- A conversion keeps the value modulo the number of values of the type. -/
def staticCast (type : IntegerType) (src : Int) : Int :=
  if type.isSigned then (src + type.bound) % (2 * type.bound) - type.bound else src % type.bound

end IntegerType

namespace NumberParsing

def numericCast (result source : IntegerType) (src : Int) : Option Int :=
  if result = source then some src
  else if result.staticCast src = src then some (result.staticCast src) else none

/-- What the conversion functions of the C library read: the sign, the magnitude and the rest of the text, unless
there is no digit. -/
def subject (str : List Char) : Option (Bool × Nat × List Char) :=
  let digits (negative : Bool) (rest : List Char) : Option (Bool × Nat × List Char) :=
    match rest.takeWhile Char.isDigit with
    | [] => none
    | digits => some (negative,digitsValue digits,rest.dropWhile Char.isDigit)
  match str.dropWhile isspace with
  | '-' :: rest => digits true rest
  | '+' :: rest => digits false rest
  | rest => digits false rest

/-- `strtol` and `strtoll`. -/
def strtol (str : List Char) : Int × List Char :=
  match subject str with
  | none => (0,str)
  | some (negative,magnitude,rest) =>
    (if negative then max (-magnitude) (-9223372036854775808) else min magnitude 9223372036854775807,rest)

/-- `strtoull`, as `strtoul`. -/
def strtoull (str : List Char) : Int × List Char := ((strtoul str).1,(strtoul str).2)

def toNumber (result source : IntegerType) (cast : List Char → Int × List Char) (str : List Char) : Option Int := do
  let (value,rest) := cast str
  let number ← numericCast result source value
  if rest = [] then some number else none

/-- The text up to its first NUL. -/
def cString (str : String) : List Char := str.toList.takeWhile fun c => c != '\x00'

/-- `to`. -/
def toInteger : IntegerType → String → Option Int
  | .int, str => toNumber .int .long strtol (cString str)
  | .unsigned, str => toNumber .unsigned .unsignedLong strtoull (cString str)
  | .unsignedShort, str => toNumber .unsignedShort .unsignedLong strtoull (cString str)
  | .long, str => toNumber .long .long strtol (cString str)
  | .longLong, str => toNumber .longLong .longLong strtol (cString str)
  | .unsignedLong, str => toNumber .unsignedLong .unsignedLong strtoull (cString str)
  | .unsignedLongLong, str => toNumber .unsignedLongLong .unsignedLongLong strtoull (cString str)

example : toInteger .int "-2147483648" = some (-2147483648) ∧ toInteger .int "2147483648" = none := by decide

/-- A decimal numeral with leading blanks and a sign allowed. -/
def Numeral (str : List Char) (n : Int) : Prop :=
  ∃ blanks sign digits, str = blanks ++ (sign ++ digits) ∧ (∀ c ∈ blanks, isspace c = true) ∧
    digits ≠ [] ∧ (∀ c ∈ digits, c.isDigit = true) ∧
    ((sign = [] ∨ sign = ['+']) ∧ n = digitsValue digits ∨ sign = ['-'] ∧ n = -digitsValue digits)

def signed (negative : Bool) (magnitude : Nat) : Int := if negative then -magnitude else magnitude

theorem subject_numeral {str : List Char} {n : Int} (numeral : Numeral str n) :
    ∃ negative magnitude, subject str = some (negative,magnitude,[]) ∧ n = signed negative magnitude := by
  obtain ⟨blanks,sign,digits,rfl,spaces,filled,digit,value⟩ := numeral
  obtain ⟨d,ds,rfl⟩ := List.exists_cons_of_ne_nil filled
  have taken : (d :: ds).takeWhile Char.isDigit = d :: ds := List.takeWhile_eq_self_iff.mpr digit
  have dropped : (d :: ds).dropWhile Char.isDigit = [] := List.dropWhile_eq_nil_iff.mpr digit
  obtain ⟨solid,minus,plus⟩ := DateTimeText.digit_begins (digit d (by simp))
  unfold subject
  rw [List.dropWhile_append_of_pos spaces]
  rcases value with ⟨rfl | rfl,rfl⟩ | ⟨rfl,rfl⟩
  · refine ⟨false,_,?_,rfl⟩
    rw [List.nil_append,List.dropWhile_cons_of_neg (by simp [solid])]
    split
    next same => exact absurd (List.cons.inj same).1 minus
    next same => exact absurd (List.cons.inj same).1 plus
    next => simp only [taken,dropped]
  · refine ⟨false,_,?_,rfl⟩
    rw [List.singleton_append,List.dropWhile_cons_of_neg (by decide)]
    simp only [taken,dropped]
  · refine ⟨true,_,?_,rfl⟩
    rw [List.singleton_append,List.dropWhile_cons_of_neg (by decide)]
    simp only [taken,dropped]

/-- What follows the sign is read to its end only if it is digits. -/
theorem digits_read {rest : List Char} {negative sign : Bool} {magnitude : Nat}
    (read : (match rest.takeWhile Char.isDigit with
      | [] => none
      | digits => some (sign,digitsValue digits,rest.dropWhile Char.isDigit)) = some (negative,magnitude,[])) :
    rest ≠ [] ∧ (∀ c ∈ rest, c.isDigit = true) ∧ sign = negative ∧ digitsValue rest = magnitude := by
  have split := @List.takeWhile_append_dropWhile _ Char.isDigit rest
  cases digits : rest.takeWhile Char.isDigit with
  | nil => simp [digits] at read
  | cons d ds =>
    rw [digits] at read split
    obtain ⟨same,value,ended⟩ : sign = negative ∧ digitsValue (d :: ds) = magnitude ∧
        rest.dropWhile Char.isDigit = [] := by simpa using read
    rw [ended,List.append_nil] at split
    rw [← split]
    refine ⟨by simp,?_,same,value⟩
    intro c member
    rw [← digits] at member
    exact List.mem_takeWhile_imp member

theorem numeral_subject {str : List Char} {negative : Bool} {magnitude : Nat}
    (read : subject str = some (negative,magnitude,[])) : Numeral str (signed negative magnitude) := by
  have spaces : ∀ c ∈ str.takeWhile isspace, isspace c = true := fun c member => List.mem_takeWhile_imp member
  have split : str = str.takeWhile isspace ++ str.dropWhile isspace := List.takeWhile_append_dropWhile.symm
  unfold subject at read
  generalize str.dropWhile isspace = solid at read split
  dsimp only at read
  split at read
  next rest =>
    obtain ⟨filled,digit,rfl,rfl⟩ := digits_read read
    exact ⟨_,['-'],rest,split,spaces,filled,digit,.inr ⟨rfl,rfl⟩⟩
  next rest =>
    obtain ⟨filled,digit,rfl,rfl⟩ := digits_read read
    exact ⟨_,['+'],rest,split,spaces,filled,digit,.inl ⟨.inr rfl,rfl⟩⟩
  next =>
    obtain ⟨filled,digit,rfl,rfl⟩ := digits_read read
    exact ⟨_,[],_,split,spaces,filled,digit,.inl ⟨.inl rfl,rfl⟩⟩

theorem numeral_pad {blanks core : List Char} {n : Int} (spaces : ∀ c ∈ blanks, isspace c = true)
    (numeral : Numeral core n) : Numeral (blanks ++ core) n := by
  obtain ⟨inner,sign,digits,rfl,spaces',rest⟩ := numeral
  refine ⟨blanks ++ inner,sign,digits,by rw [List.append_assoc],?_,rest⟩
  intro c member
  exact (List.mem_append.mp member).elim (spaces c) (spaces' c)

/-- Behind its leading blanks a numeral has none. -/
theorem numeral_core {str : List Char} {n : Int} (numeral : Numeral str n) :
    ∃ blanks core : List Char, str = blanks ++ core ∧ (∀ c ∈ blanks, isspace c = true) ∧
      Numeral core n ∧ ∀ c ∈ core, isspace c = false := by
  obtain ⟨blanks,sign,digits,rfl,spaces,filled,digit,value⟩ := numeral
  refine ⟨blanks,sign ++ digits,rfl,spaces,⟨[],sign,digits,rfl,by simp,filled,digit,value⟩,fun c member => ?_⟩
  rcases List.mem_append.mp member with first | last
  · rcases value with ⟨rfl | rfl,-⟩ | ⟨rfl,-⟩
    · cases first
    · rw [List.mem_singleton.mp first]
      decide
    · rw [List.mem_singleton.mp first]
      decide
  · exact (DateTimeText.digit_begins (digit c last)).1

theorem numeral_unique {str : List Char} {m n : Int} (first : Numeral str m) (second : Numeral str n) : m = n := by
  obtain ⟨negative,magnitude,read,rfl⟩ := subject_numeral first
  obtain ⟨negative',magnitude',read',rfl⟩ := subject_numeral second
  rw [read] at read'
  obtain ⟨rfl,rfl⟩ : negative = negative' ∧ magnitude = magnitude' := by simpa using read'
  rfl

/-- The value of the 64-bit type that a numeral is converted to. -/
def converted (type : IntegerType) (n : Int) : Int :=
  if type.isSigned then max (-9223372036854775808) (min n 9223372036854775807)
  else if 18446744073709551616 ≤ n.natAbs then 18446744073709551615
  else n % 18446744073709551616

/-- A conversion that reads numerals to their end, and nothing else but the empty text. -/
structure Reads (cast : List Char → Int × List Char) (value : Int → Int) : Prop where
  empty : cast [] = (0,[])
  numeral : ∀ str n, Numeral str n → cast str = (value n,[])
  ended : ∀ str, (cast str).2 = [] → str = [] ∨ ∃ n, Numeral str n

/-- Where a conversion ends: at the start where there is no digit. -/
def unread (str : List Char) : List Char :=
  match subject str with
  | none => str
  | some (_,_,rest) => rest

theorem unread_nil {str : List Char} (ended : unread str = []) : str = [] ∨ ∃ n, Numeral str n := by
  unfold unread at ended
  split at ended
  next => exact .inl ended
  next negative magnitude rest read =>
    rw [ended] at read
    exact .inr ⟨_,numeral_subject read⟩

theorem strtol_unread (str : List Char) : (strtol str).2 = unread str := by
  unfold strtol unread
  cases subject str <;> rfl

theorem strtol_reads {type : IntegerType} (isSigned : type.isSigned = true) : Reads strtol (converted type) where
  empty := rfl
  numeral str n numeral := by
    obtain ⟨negative,magnitude,read,rfl⟩ := subject_numeral numeral
    rw [strtol,read]
    cases negative with
    | false =>
      simp only [converted,isSigned,signed,if_true,Bool.false_eq_true,if_false]
      congr 1
      omega
    | true =>
      simp only [converted,isSigned,signed,if_true]
      congr 1
      omega
  ended str ended := unread_nil (strtol_unread str ▸ ended)

theorem strtoul_subject (str : List Char) : strtoul str =
    match subject str with
    | none => (0,str)
    | some (negative,value,rest) =>
      (if 18446744073709551616 ≤ value then 18446744073709551615
        else if negative then (18446744073709551616 - value) % 18446744073709551616 else value,rest) := by
  unfold strtoul subject
  generalize str.dropWhile isspace = solid
  dsimp only
  split
  next rest => cases _ : rest.takeWhile Char.isDigit <;> simp [*]
  next rest => cases _ : rest.takeWhile Char.isDigit <;> simp [*]
  next => cases _ : solid.takeWhile Char.isDigit <;> simp [*]

theorem strtoull_unread (str : List Char) : (strtoull str).2 = unread str := by
  rw [strtoull,strtoul_subject,unread]
  cases subject str <;> rfl

theorem strtoull_reads {type : IntegerType} (isUnsigned : type.isSigned = false) :
    Reads strtoull (converted type) where
  empty := rfl
  numeral str n numeral := by
    obtain ⟨negative,magnitude,read,rfl⟩ := subject_numeral numeral
    rw [strtoull,strtoul_subject,read]
    cases negative <;> simp [converted,isUnsigned,signed] <;> omega
  ended str ended := unread_nil (strtoull_unread str ▸ ended)

theorem staticCast_eq_iff (type : IntegerType) (n : Int) : type.staticCast n = n ↔ type.Contains n := by
  cases type <;> simp only [IntegerType.staticCast,IntegerType.Contains,IntegerType.low,IntegerType.isSigned,
    IntegerType.bound,if_true,Bool.false_eq_true,if_false] <;> omega

theorem numericCast_eq {result source : IntegerType} {n : Int} (inside : source.Contains n) :
    numericCast result source n = if result.Contains n then some n else none := by
  unfold numericCast
  split
  next same =>
    subst same
    rw [if_pos inside]
  next =>
    simp only [staticCast_eq_iff]
    split
    next fits => rw [(staticCast_eq_iff result n).mpr fits]
    next => rfl

/-- For the narrow unsigned types this is the conversion that the settings are read with. -/
theorem toNumber_strtoull {type : IntegerType} {bound : Nat} (isUnsigned : type.isSigned = false)
    (size : type.bound = bound) (narrow : type ≠ .unsignedLong) (str : String) :
    toNumber type .unsignedLong strtoull (cString str) = (Call45Aggr.toNumber bound str).map Int.ofNat := by
  have cast (src : Nat) : numericCast type .unsignedLong src = (Call45Aggr.numericCast bound src).map Int.ofNat := by
    have same : ((src : Int) % bound = src) ↔ src % bound = src := by omega
    simp only [numericCast,narrow,if_false,IntegerType.staticCast,isUnsigned,Bool.false_eq_true,size,same,
      Call45Aggr.numericCast]
    split
    next fits => simpa using same.mpr fits
    next => rfl
  unfold toNumber Call45Aggr.toNumber strtoull cString
  dsimp only
  rw [cast]
  split
  next => cases Call45Aggr.numericCast bound _ <;> rfl
  next => cases Call45Aggr.numericCast bound _ <;> rfl

/-- A member of `to` converts through a type that contains what it is converted to. -/
structure Converts (type : IntegerType) (str : String) (source : IntegerType) (cast : List Char → Int × List Char) :
    Prop where
  eq : toInteger type str = toNumber type source cast (cString str)
  reads : Reads cast (converted type)
  inside : ∀ n, source.Contains (converted type n)

theorem toInteger_converts (type : IntegerType) (str : String) : ∃ source cast, Converts type str source cast := by
  have wide (n : Int) (source : IntegerType) (bound : source.bound = 9223372036854775808 ∧ source.isSigned = true)
      (isSigned : type.isSigned = true) : source.Contains (converted type n) := by
    simp only [IntegerType.Contains,IntegerType.low,bound,converted,isSigned,if_true]
    omega
  have wide' (n : Int) (source : IntegerType) (bound : source.bound = 18446744073709551616 ∧ source.isSigned = false)
      (isUnsigned : type.isSigned = false) : source.Contains (converted type n) := by
    simp only [IntegerType.Contains,IntegerType.low,bound,converted,isUnsigned,Bool.false_eq_true,if_false]
    split <;> omega
  cases type with
  | int => exact ⟨.long,strtol,rfl,strtol_reads rfl,fun n => wide n _ ⟨rfl,rfl⟩ rfl⟩
  | long => exact ⟨.long,strtol,rfl,strtol_reads rfl,fun n => wide n _ ⟨rfl,rfl⟩ rfl⟩
  | longLong => exact ⟨.longLong,strtol,rfl,strtol_reads rfl,fun n => wide n _ ⟨rfl,rfl⟩ rfl⟩
  | unsigned => exact ⟨.unsignedLong,strtoull,rfl,strtoull_reads rfl,fun n => wide' n _ ⟨rfl,rfl⟩ rfl⟩
  | unsignedShort => exact ⟨.unsignedLong,strtoull,rfl,strtoull_reads rfl,fun n => wide' n _ ⟨rfl,rfl⟩ rfl⟩
  | unsignedLong => exact ⟨.unsignedLong,strtoull,rfl,strtoull_reads rfl,fun n => wide' n _ ⟨rfl,rfl⟩ rfl⟩
  | unsignedLongLong => exact ⟨.unsignedLongLong,strtoull,rfl,strtoull_reads rfl,fun n => wide' n _ ⟨rfl,rfl⟩ rfl⟩

theorem toInteger_empty (type : IntegerType) {str : String} (empty : cString str = []) :
    toInteger type str = some 0 := by
  cases type <;> simp only [toInteger,empty] <;> decide

theorem toInteger_numeral (type : IntegerType) {str : String} {n : Int} (numeral : Numeral (cString str) n) :
    toInteger type str = if type.Contains (converted type n) then some (converted type n) else none := by
  obtain ⟨source,cast,converts⟩ := toInteger_converts type str
  rw [converts.eq,toNumber,converts.reads.numeral _ _ numeral]
  dsimp only
  rw [numericCast_eq (converts.inside n)]
  split <;> rfl

theorem toInteger_some {type : IntegerType} {str : String} {value : Int} (read : toInteger type str = some value) :
    cString str = [] ∨ ∃ n, Numeral (cString str) n := by
  obtain ⟨source,cast,converts⟩ := toInteger_converts type str
  rw [converts.eq,toNumber] at read
  apply converts.reads.ended
  obtain ⟨number,-,ended⟩ := Option.bind_eq_some_iff.mp read
  by_contra more
  simp [more] at ended

/-- A numeral that the type accepts and takes for another number. -/
def Misread (type : IntegerType) (n : Int) : Prop :=
  if type.isSigned then
    type.bound = 9223372036854775808 ∧ (n < -9223372036854775808 ∨ 9223372036854775808 ≤ n)
  else
    -18446744073709551616 < n ∧ n < type.bound - 18446744073709551616 ∨
      type.bound = 18446744073709551616 ∧ 18446744073709551616 ≤ n.natAbs

theorem misread_iff (type : IntegerType) (n : Int) :
    Misread type n ↔ type.Contains (converted type n) ∧ converted type n ≠ n := by
  unfold Misread converted IntegerType.Contains IntegerType.low
  cases type <;> simp only [IntegerType.isSigned,IntegerType.bound,if_true,Bool.false_eq_true,if_false,Int.reduceEq,
    true_and,false_and,or_false]
  case int => exact iff_of_false id (by omega)
  case long | longLong => omega
  all_goals
    split
    next => omega
    next => omega

theorem converted_contained {type : IntegerType} {n : Int} (fits : type.Contains n) : converted type n = n := by
  unfold IntegerType.Contains IntegerType.low at fits
  unfold converted
  cases type <;> simp only [IntegerType.isSigned,IntegerType.bound,if_true,Bool.false_eq_true,if_false] at fits ⊢
  case int | long | longLong => omega
  all_goals
    split
    next => omega
    next => omega

theorem numeral_solid {str : List Char} {n : Int} (numeral : Numeral str n) : ∀ c ∈ str, c ≠ '\x00' := by
  obtain ⟨blanks,sign,digits,rfl,spaces,-,digit,value⟩ := numeral
  rintro c member rfl
  rcases List.mem_append.mp member with blank | member
  · exact absurd (spaces _ blank) (by decide)
  rcases List.mem_append.mp member with first | last
  · rcases value with ⟨rfl | rfl,-⟩ | ⟨rfl,-⟩
    · cases first
    · exact absurd (List.mem_singleton.mp first) (by decide)
    · exact absurd (List.mem_singleton.mp first) (by decide)
  · exact absurd (digit _ last) (by decide)

theorem cString_ofList {str : List Char} {n : Int} (numeral : Numeral str n) : cString (String.ofList str) = str := by
  rw [cString,String.toList_ofList]
  exact List.takeWhile_eq_self_iff.mpr fun c member => by simpa using numeral_solid numeral c member

theorem cString_numeral {str : String} {n : Int} (numeral : Numeral str.toList n) : cString str = str.toList := by
  have whole := cString_ofList numeral
  rwa [String.ofList_toList] at whole

/-- `to` returns a number exactly for a numeral of that number. -/
def Exact (type : IntegerType) (str : String) : Prop :=
  (∀ value, toInteger type str = some value → Numeral str.toList value) ∧
    ∀ value, Numeral str.toList value → type.Contains value → toInteger type str = some value

/-- A text is read as it should be exactly if something stands before its first NUL and this is no numeral that
is misread and, where it is one of the type, is the whole text. -/
theorem exact_iff (type : IntegerType) (str : String) : Exact type str ↔ cString str ≠ [] ∧
    ∀ n, Numeral (cString str) n → ¬Misread type n ∧ (type.Contains n → cString str = str.toList) := by
  constructor
  · intro ⟨sound,complete⟩
    refine ⟨?_,fun n numeral => ?_⟩
    · intro empty
      have whole := cString_numeral (sound 0 (toInteger_empty type empty))
      obtain ⟨_,_,read,-⟩ := subject_numeral (sound 0 (toInteger_empty type empty))
      rw [← whole,empty] at read
      cases read
    have read := toInteger_numeral type numeral
    constructor
    · intro misread
      obtain ⟨inside,other⟩ := (misread_iff type n).mp misread
      rw [if_pos inside] at read
      have written := sound _ read
      rw [← cString_numeral written] at written
      exact other (numeral_unique written numeral)
    · intro fits
      rw [converted_contained fits,if_pos fits] at read
      exact cString_numeral (sound _ read)
  · rintro ⟨filled,plain⟩
    constructor
    · intro value read
      obtain ⟨n,numeral⟩ := (toInteger_some read).resolve_left filled
      obtain ⟨correct,whole⟩ := plain n numeral
      rw [toInteger_numeral type numeral] at read
      split at read
      next inside =>
        have same : converted type n = n := by
          by_contra other
          exact correct ((misread_iff type n).mpr ⟨inside,other⟩)
        rw [same] at inside read
        obtain rfl := Option.some.inj read
        rwa [whole inside] at numeral
      next => cases read
    · intro value numeral fits
      rw [← cString_numeral numeral] at numeral
      rw [toInteger_numeral type numeral,converted_contained fits,if_pos fits]

theorem not_exact {type : IntegerType} {str : String} {value : Int} {negative : Bool} {magnitude : Nat}
    (read : toInteger type str = some value) (written : subject str.toList = some (negative,magnitude,[]))
    (other : value ≠ signed negative magnitude) : ¬Exact type str :=
  fun exact => other (numeral_unique (exact.1 value read) (numeral_subject written))

/-- The empty text and a text with a NUL are read, and numbers outside the 64-bit types as others. -/
theorem misread_texts : ¬Exact .int "" ∧ ¬Exact .int (String.ofList ['1','\x00','x']) ∧
    ¬Exact .longLong "9223372036854775808" ∧ ¬Exact .unsigned "-18446744073709551615" ∧
    ¬Exact .unsignedLongLong "-1" := by
  refine ⟨fun exact => ?_,fun exact => ?_,?_,?_,?_⟩
  · obtain ⟨_,_,read,-⟩ := subject_numeral (exact.1 0 (by decide))
    cases read
  · exact absurd rfl (numeral_solid (exact.1 1 (by decide)) '\x00' (by decide))
  · exact @not_exact _ _ 9223372036854775807 false 9223372036854775808 (by decide) (by decide) (by decide)
  · exact @not_exact _ _ 1 true 18446744073709551615 (by decide) (by decide) (by decide)
  · exact @not_exact _ _ 18446744073709551615 true 1 (by decide) (by decide) (by decide)

end NumberParsing
end Call45Aggr
