import Call45Aggr.Library.Calendar
import Mathlib.Algebra.Ring.Int.Defs
import Mathlib.Algebra.Ring.Nat

/-! `parseDateTime` and what it calls: `sscanf` with the conversions it uses, and
`timegm`. A `time_t` is a mathematical integer: fields of `int` size give instants
far inside 64 bits. -/
namespace Call45Aggr
open Library.Calendar

def toInt32 (value : Int) : Int := value.bmod (2^32)

structure Tm where
  year : Int := 0
  mon : Int := 0
  mday : Int := 0
  hour : Int := 0
  min : Int := 0
  sec : Int := 0
  deriving DecidableEq, Inhabited

def isspace (c : Char) : Bool := c = ' ' || decide (9 ≤ c.toNat ∧ c.toNat ≤ 13)

def digitsValue (digits : List Char) : Nat :=
  digits.foldl (fun value c => value * 10 + (c.toNat - 48)) 0

/-- `strtol` saturates to 64 bits; storing through `%d` keeps the low 32. -/
def toInt (negative : Bool) (digits : List Char) : Int :=
  let magnitude : Int := digitsValue digits
  toInt32 (if negative then max (-magnitude) (-2^63) else min magnitude (2^63 - 1))

def scanDigits (negative : Bool) (str : List Char) : Option (Int × List Char) :=
  match str.takeWhile Char.isDigit with
  | [] => none
  | digits => some (toInt negative digits,str.dropWhile Char.isDigit)

/-- The conversion `%d`: blanks, an optional sign, at least one digit. -/
def scanInt (str : List Char) : Option (Int × List Char) :=
  match str.dropWhile isspace with
  | '-' :: rest => scanDigits true rest
  | '+' :: rest => scanDigits false rest
  | rest => scanDigits false rest

inductive Directive
  | int
  | literal (c : Char)
  | space

/-- The values `sscanf` assigns, in order, until a directive fails. -/
def sscanf : List Directive → List Char → List Int
  | [], _ => []
  | .int :: format, str =>
    match scanInt str with
    | some (value,rest) => value :: sscanf format rest
    | none => []
  | .literal c :: format, str =>
    match str with
    | d :: rest => if d = c then sscanf format rest else []
    | [] => []
  | .space :: format, str => sscanf format (str.dropWhile isspace)

def dateTimeFormat : List Directive :=
  [.int,.literal '-',.int,.literal '-',.int,.space,.int,.literal ':',.int,.literal ':',.int]

def timegm (tm : Tm) : Int :=
  dayNumber (tm.year + 1900 + tm.mon / 12) (tm.mon % 12).toNat tm.mday * 86400 +
    tm.hour * 3600 + tm.min * 60 + tm.sec

/-- `ttt` is the unspecified content of the local struct: a field that `sscanf`
does not reach keeps it. -/
def parseDateTime (ttt : Tm) (str : String) : Int :=
  match sscanf dateTimeFormat str.toList with
  | [] => 0
  | fields =>
    timegm {
      year := fields[0]?.getD ttt.year - 1900
      mon := fields[1]?.getD ttt.mon - 1
      mday := fields[2]?.getD ttt.mday
      hour := fields[3]?.getD ttt.hour
      min := fields[4]?.getD ttt.min
      sec := fields[5]?.getD ttt.sec}

example : parseDateTime default "2024-02-29 23:59:59.75+00" = 1709251199 := by decide

end Call45Aggr
