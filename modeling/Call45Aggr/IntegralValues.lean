import Call45Aggr.Library.SqlTuple
import Call45Aggr.NumberParsing
import Mathlib.Data.Finset.Dedup

/-! `extractIntegralValues` and its version for sets: one loop over the text, which collects the digits and minus
signs of a number until another character ends it. -/
namespace Call45Aggr
open NumberParsing

namespace IntegralValues

section
variable {κ : Type} (type : IntegerType) (add : κ → Int → κ)

/-- The end of a number, which is forgotten if its conversion throws. -/
def flush (container : κ) (number : List Char) : κ :=
  if number = [] then container
  else
    match toInteger type (String.ofList number) with
    | some value => add container value
    | none => container

def step : κ × List Char → Char → κ × List Char
  | (container,number), character =>
    if character.isDigit ∨ character = '-' then (container,number ++ [character])
    else (flush type add container number,[])

def extract (empty : κ) (str : List Char) : κ :=
  let (container,number) := str.foldl (step type add) (empty,[])
  flush type add container number

end

def extractIntegralValues (type : IntegerType) (str : List Char) : List Int :=
  extract type (fun container value => container ++ [value]) [] str

def extractIntegralValuesToSet (type : IntegerType) (str : List Char) : Finset Int :=
  extract type (fun container value => insert value container) ∅ str

example : extractIntegralValues .int "12, -7;4-2 x99999999999,-,8".toList = [12,-7,8] := by decide

section
variable {κ κ' : Type} {type : IntegerType} {add : κ → Int → κ} {add' : κ' → Int → κ'} {f : κ → κ'}

theorem flush_map (adds : ∀ container value, f (add container value) = add' (f container) value) (container : κ)
    (number : List Char) : f (flush type add container number) = flush type add' (f container) number := by
  unfold flush
  split
  next => rfl
  next =>
    cases toInteger type (String.ofList number) with
    | none => rfl
    | some value => exact adds container value

/-- Two loops whose containers correspond go through the same numbers, whatever the text is. -/
theorem extract_map (adds : ∀ container value, f (add container value) = add' (f container) value) (empty : κ)
    (str : List Char) : f (extract type add empty str) = extract type add' (f empty) str := by
  have folded (str : List Char) (container : κ) (number : List Char) :
      str.foldl (step type add') (f container,number) =
        (f (str.foldl (step type add) (container,number)).1,(str.foldl (step type add) (container,number)).2) := by
    induction str generalizing container number with
    | nil => rfl
    | cons character str ih =>
      rw [List.foldl_cons,List.foldl_cons,step,step]
      split
      next => exact ih _ _
      next => rw [← flush_map adds,ih]
  rw [extract,extract,folded str empty []]
  exact flush_map adds _ _

end

theorem set_values (type : IntegerType) (str : List Char) :
    extractIntegralValuesToSet type str = (extractIntegralValues type str).toFinset := by
  refine (extract_map (f := List.toFinset) (fun container value => ?_) [] str).symm
  ext n
  simp

/-- What may stand between the numbers. -/
def Separates (c : Char) : Prop := c.toNat < 128 ∧ c.isDigit = false ∧ c ≠ '-'

/-- The numbers, each with the text behind it. -/
def joined (values : List (Int × List Char)) : List Char :=
  values.flatMap fun (value,behind) => Library.Sql.decimal value ++ behind

theorem digitsValue_toDigits (n : Nat) : digitsValue (Nat.toDigits 10 n) = n := by
  have value : digitsValue (Nat.toDigits 10 n) = Nat.ofDigitChars 10 (Nat.toDigits 10 n) 0 := by
    simp [digitsValue,Nat.ofDigitChars_eq_foldl,Nat.mul_comm]
  rw [value,Nat.ofDigitChars_ten_toDigits]

theorem decimal_numeral (value : Int) : Numeral (Library.Sql.decimal value) value := by
  unfold Library.Sql.decimal
  split
  next negative =>
    refine ⟨[],['-'],Nat.toDigits 10 value.natAbs,rfl,by simp,Nat.toDigits_ne_nil,Library.Sql.digits_all value.natAbs,.inr ⟨rfl,?_⟩⟩
    rw [digitsValue_toDigits]
    omega
  next natural =>
    refine ⟨[],[],Nat.toDigits 10 value.natAbs,rfl,by simp,Nat.toDigits_ne_nil,Library.Sql.digits_all value.natAbs,.inl ⟨.inl rfl,?_⟩⟩
    rw [digitsValue_toDigits]
    omega

theorem decimal_chars (value : Int) : ∀ c ∈ Library.Sql.decimal value, c.isDigit = true ∨ c = '-' := by
  intro c member
  unfold Library.Sql.decimal at member
  split at member
  next =>
    rcases List.mem_cons.mp member with minus | digit
    · exact .inr minus
    · exact .inl (Library.Sql.digits_all value.natAbs c digit)
  next => exact .inl (Library.Sql.digits_all value.natAbs c member)

section
variable {κ : Type} {type : IntegerType} {add : κ → Int → κ}

theorem flush_decimal {value : Int} (fits : type.Contains value) (container : κ) :
    flush type add container (Library.Sql.decimal value) = add container value := by
  have numeral := decimal_numeral value
  have read := @toInteger_numeral type (String.ofList (Library.Sql.decimal value)) value (by rwa [cString_ofList numeral])
  rw [converted_contained fits,if_pos fits] at read
  have filled : Library.Sql.decimal value ≠ [] := by
    intro empty
    rw [empty] at numeral
    obtain ⟨_,_,none,-⟩ := subject_numeral numeral
    cases none
  rw [flush,if_neg filled,read]

theorem foldl_number {run : List Char} (number : ∀ c ∈ run, c.isDigit = true ∨ c = '-') (container : κ)
    (before : List Char) : run.foldl (step type add) (container,before) = (container,before ++ run) := by
  induction run generalizing before with
  | nil => simp
  | cons c run ih =>
    obtain ⟨first,number⟩ := List.forall_mem_cons.mp number
    rw [List.foldl_cons,step,if_pos first,ih number,List.append_assoc,List.singleton_append]

theorem step_separator {c : Char} (separates : Separates c) (container : κ) (number : List Char) :
    step type add (container,number) c = (flush type add container number,[]) := by
  obtain ⟨-,digit,minus⟩ := separates
  rw [step,if_neg (by simp [digit,minus])]

theorem foldl_separators {run : List Char} (separates : ∀ c ∈ run, Separates c) (container : κ) :
    run.foldl (step type add) (container,[]) = (container,[]) := by
  induction run with
  | nil => rfl
  | cons c run ih =>
    obtain ⟨first,separates⟩ := List.forall_mem_cons.mp separates
    rw [List.foldl_cons,step_separator first,flush,if_pos rfl,ih separates]

theorem foldl_behind {behind : List Char} (separates : ∀ c ∈ behind, Separates c) (filled : behind ≠ [])
    (container : κ) (number : List Char) :
    behind.foldl (step type add) (container,number) = (flush type add container number,[]) := by
  cases behind with
  | nil => contradiction
  | cons c behind =>
    obtain ⟨first,separates⟩ := List.forall_mem_cons.mp separates
    rw [List.foldl_cons,step_separator first,foldl_separators separates]

theorem extract_before {before : List Char} (separates : ∀ c ∈ before, Separates c) (container : κ)
    (rest : List Char) : extract type add container (before ++ rest) = extract type add container rest := by
  rw [extract,List.foldl_append,foldl_separators separates,extract]

theorem extract_last {value : Int} (fits : type.Contains value) (container : κ) :
    extract type add container (Library.Sql.decimal value) = add container value := by
  rw [extract,foldl_number (decimal_chars value)]
  exact flush_decimal fits container

theorem extract_number {value : Int} (fits : type.Contains value) {behind : List Char}
    (separates : ∀ c ∈ behind, Separates c) (filled : behind ≠ []) (container : κ) (rest : List Char) :
    extract type add container (Library.Sql.decimal value ++ behind ++ rest) =
      extract type add (add container value) rest := by
  rw [extract,List.foldl_append,List.foldl_append,foldl_number (decimal_chars value),List.nil_append,
    foldl_behind separates filled,flush_decimal fits,extract]

theorem extract_joined {values : List (Int × List Char)} (fits : ∀ p ∈ values, type.Contains p.1)
    (separates : ∀ p ∈ values, ∀ c ∈ p.2, Separates c) (apart : ∀ p ∈ values.dropLast, p.2 ≠ []) (container : κ) :
    extract type add container (joined values) = (values.map Prod.fst).foldl add container := by
  induction values generalizing container with
  | nil => rfl
  | cons p values ih =>
    obtain ⟨first,fits⟩ := List.forall_mem_cons.mp fits
    obtain ⟨between,separates⟩ := List.forall_mem_cons.mp separates
    rw [joined,List.flatMap_cons,← joined]
    cases values with
    | nil =>
      by_cases filled : p.2 = []
      · simpa [joined,filled] using extract_last first container
      · rw [extract_number first between filled]
        rfl
    | cons next values =>
      rw [List.dropLast_cons_cons] at apart
      obtain ⟨filled,apart⟩ := List.forall_mem_cons.mp apart
      rw [extract_number first between filled,ih fits separates apart]
      rfl

end

/-- The numbers of a joined text are read back in their order, and the set is that of the numbers of any text. -/
theorem values_of_joined (type : IntegerType) :
    (∀ (before : List Char) (values : List (Int × List Char)), (∀ c ∈ before, Separates c) →
      (∀ p ∈ values, type.Contains p.1 ∧ ∀ c ∈ p.2, Separates c) → (∀ p ∈ values.dropLast, p.2 ≠ []) →
        extractIntegralValues type (before ++ joined values) = values.map Prod.fst) ∧
    ∀ str, extractIntegralValuesToSet type str = (extractIntegralValues type str).toFinset := by
  refine ⟨fun before values separates items apart => ?_,set_values type⟩
  rw [extractIntegralValues,extract_before separates,
    extract_joined (fun p member => (items p member).1) (fun p member => (items p member).2) apart]
  have collected (found container : List Int) :
      found.foldl (fun container value => container ++ [value]) container = container ++ found := by
    induction found generalizing container with
    | nil => simp
    | cons value found ih => rw [List.foldl_cons,ih,List.append_assoc,List.singleton_append]
  exact collected _ []

theorem values_of_joined_three :
    extractIntegralValues .int " -2147483648, 0;2147483647".toList = [-2147483648,0,2147483647] := by
  have text : " -2147483648, 0;2147483647".toList =
      [' '] ++ joined [(-2147483648,[',',' ']),(0,[';']),(2147483647,[])] := by decide
  rw [text]
  exact (values_of_joined .int).1 [' '] _ (by simp [Separates])
    (by simp [Separates,IntegerType.Contains,IntegerType.low,IntegerType.bound,IntegerType.isSigned]) (by simp)

end IntegralValues
end Call45Aggr
