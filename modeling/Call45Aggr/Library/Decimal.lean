import Mathlib.Data.List.Basic
import Mathlib.Data.Rat.Defs
import Mathlib.Tactic.Linarith
import Mathlib.Tactic.IntervalCases
import Mathlib.Tactic.Positivity

/-! Decimal numerals of a fixed width and decimal fractions as text, and the order of the texts against
that of the numbers. -/
namespace Call45Aggr.Library.Decimal

def digit (n : Nat) : Char := Char.ofNat (48 + n)

def pad : Nat → Nat → List Char
  | 0, _ => []
  | width + 1, n => pad width (n / 10) ++ [digit (n % 10)]

theorem digit_toNat {n : Nat} (single : n < 10) : (digit n).toNat = 48 + n := by
  interval_cases n <;> rfl

theorem char_lt_iff {c d : Char} : c < d ↔ c.toNat < d.toNat := by
  rw [Char.lt_def,UInt32.lt_iff_toNat_lt]
  rfl

theorem digit_lt_iff {m n : Nat} (first : m < 10) (second : n < 10) : digit m < digit n ↔ m < n := by
  rw [char_lt_iff,digit_toNat first,digit_toNat second]
  omega

theorem digit_inj {m n : Nat} (first : m < 10) (second : n < 10) : digit m = digit n ↔ m = n := by
  constructor
  · intro same
    have numbers := congrArg Char.toNat same
    rw [digit_toNat first,digit_toNat second] at numbers
    omega
  · rintro rfl
    rfl

theorem digit_isDigit {n : Nat} (single : n < 10) : (digit n).isDigit = true := by
  interval_cases n <;> rfl

/-- Texts that begin with numerals of one width compare as the numbers do, then as what follows. -/
theorem pad_append_lt_iff (width : Nat) {m n : Nat} (first : m < 10 ^ width) (second : n < 10 ^ width)
    (u v : List Char) : pad width m ++ u < pad width n ++ v ↔ m < n ∨ m = n ∧ u < v := by
  induction width generalizing m n u v with
  | zero =>
    have zeros : m = 0 ∧ n = 0 := by simpa using And.intro first second
    simp [pad,zeros.1,zeros.2]
  | succ width ih =>
    rw [pad,pad,List.append_assoc,List.append_assoc,
      ih (by rw [Nat.pow_succ] at first; omega) (by rw [Nat.pow_succ] at second; omega),
      List.singleton_append,List.singleton_append,List.cons_lt_cons_iff,
      digit_lt_iff (Nat.mod_lt _ (by decide)) (Nat.mod_lt _ (by decide)),
      digit_inj (Nat.mod_lt _ (by decide)) (Nat.mod_lt _ (by decide))]
    by_cases later : u < v <;> simp only [later,and_true,and_false,or_false] <;> omega

def written (digits : List (Fin 10)) : List Char :=
  digits.map fun d : Fin 10 => digit d.val

theorem written_cons (d : Fin 10) (digits : List (Fin 10)) :
    written (d :: digits) = digit d.val :: written digits := rfl

/-- The number `0.d₁d₂…`. -/
def fraction : List (Fin 10) → ℚ
  | [] => 0
  | d :: digits => ((d : Nat) + fraction digits) / 10

/-- No zero at the end. -/
def Trimmed (digits : List (Fin 10)) : Prop := digits.getLast? ≠ some 0

instance (digits : List (Fin 10)) : Decidable (Trimmed digits) := inferInstanceAs (Decidable (_ ≠ _))

theorem Trimmed.tail {d : Fin 10} {digits : List (Fin 10)} (trimmed : Trimmed (d :: digits)) :
    Trimmed digits := by
  cases digits with
  | nil => simp [Trimmed]
  | cons e digits => simpa [Trimmed,List.getLast?_cons_cons] using trimmed

theorem fraction_nonneg (digits : List (Fin 10)) : 0 ≤ fraction digits := by
  induction digits with
  | nil => exact le_refl 0
  | cons d digits ih =>
    unfold fraction
    positivity

theorem fraction_lt_one (digits : List (Fin 10)) : fraction digits < 1 := by
  induction digits with
  | nil => exact zero_lt_one
  | cons d digits ih =>
    have single : ((d : Nat) : ℚ) ≤ 9 := by exact_mod_cast Nat.le_of_lt_succ d.isLt
    unfold fraction
    linarith

theorem Trimmed.fraction_pos {digits : List (Fin 10)} (trimmed : Trimmed digits) (filled : digits ≠ []) :
    0 < fraction digits := by
  induction digits with
  | nil => exact absurd rfl filled
  | cons d digits ih =>
    unfold fraction
    by_cases more : digits = []
    · have last : d ≠ 0 := by simpa [Trimmed,more] using trimmed
      have single : (1 : ℚ) ≤ ((d : Nat) : ℚ) := by
        exact_mod_cast Nat.one_le_iff_ne_zero.mpr fun zero => last (Fin.ext zero)
      have rest := fraction_nonneg digits
      linarith
    · have rest := ih trimmed.tail more
      positivity

/-- Fractions without zeros at the end are ordered as their digits are. -/
theorem fraction_lt_iff {digits other : List (Fin 10)} (trimmed : Trimmed digits) (trimmed' : Trimmed other) :
    fraction digits < fraction other ↔ digits < other := by
  induction digits generalizing other with
  | nil =>
    cases other with
    | nil => simp
    | cons e other => simpa [fraction] using trimmed'.fraction_pos (by simp)
  | cons d digits ih =>
    cases other with
    | nil =>
      have positive := fraction_nonneg (d :: digits)
      simpa [fraction] using positive
    | cons e other =>
      rw [List.cons_lt_cons_iff,← ih trimmed.tail trimmed'.tail]
      have low := fraction_nonneg digits
      have high := fraction_lt_one digits
      have low' := fraction_nonneg other
      have high' := fraction_lt_one other
      simp only [fraction]
      rcases lt_trichotomy d e with less | rfl | more
      · have step : ((d : Nat) : ℚ) + 1 ≤ ((e : Nat) : ℚ) := by exact_mod_cast less
        exact iff_of_true (by linarith) (.inl less)
      · have same : ((d : Nat) + fraction digits) / 10 < ((d : Nat) + fraction other) / 10 ↔
            fraction digits < fraction other := by
          constructor <;> intro less <;> linarith
        simpa using same
      · have step : ((e : Nat) : ℚ) + 1 ≤ ((d : Nat) : ℚ) := by exact_mod_cast more
        refine iff_of_false (by linarith) ?_
        rintro (less | ⟨rfl,-⟩)
        · exact absurd less (lt_asymm more)
        · exact absurd more (lt_irrefl _)

/-- Digits that end at a character below them compare as texts as they do as lists. -/
theorem written_lt_iff {stop : Char} (below : stop < '0') (digits other : List (Fin 10)) (rest : List Char) :
    written digits ++ stop :: rest < written other ++ stop :: rest ↔ digits < other := by
  have above (d : Fin 10) : stop.toNat < (digit d).toNat := by
    have zero : ('0' : Char).toNat = 48 := rfl
    rw [char_lt_iff] at below
    rw [digit_toNat d.isLt]
    omega
  induction digits generalizing other with
  | nil =>
    cases other with
    | nil => simp [written]
    | cons e other =>
      refine iff_of_true ?_ (by simp)
      exact List.cons_lt_cons_iff.mpr (.inl (char_lt_iff.mpr (above e)))
  | cons d digits ih =>
    cases other with
    | nil =>
      refine iff_of_false ?_ (by simp)
      intro less
      have high := above d
      rw [written_cons] at less
      rcases List.cons_lt_cons_iff.mp less with lower | ⟨same,-⟩
      · rw [char_lt_iff] at lower
        omega
      · rw [← same] at high
        exact absurd high (lt_irrefl _)
    | cons e other =>
      have tails := ih other
      rw [written_cons,written_cons,List.cons_append,List.cons_append,List.cons_lt_cons_iff,
        digit_lt_iff d.isLt e.isLt,digit_inj d.isLt e.isLt,List.cons_lt_cons_iff,Fin.lt_def,Fin.ext_iff]
      exact or_congr_right (and_congr_right' tails)

end Call45Aggr.Library.Decimal
