import Call45Aggr.DateTimeText
import Call45Aggr.Split
import Call45Aggr.Library.Reduction

/-! `BDb::query_reduce_select`: the text it builds, and what the built statement selects against the
plain one. -/
namespace Call45Aggr
open Library

def removeFramingBrackets (s : List Char) : Except String (List Char) :=
  if s.length < 2 ∨ s.head? ≠ some '(' ∨ s.getLast? ≠ some ')' then
    .error ("extractFromBrackets: invalid input \"" ++ String.ofList s ++ "\"")
  else .ok (s.drop 1).dropLast

/-- `split_any` skips blank fields before they are trimmed. -/
def splitValues (valuesStr : List Char) : Except String (List (List Char)) :=
  let values := ((splitAny [','] valuesStr).filter (· ≠ [])).map trim
  if [] ∈ values then .error ("splitValues: invalid values_str \"" ++ String.ofList valuesStr ++ "\"")
  else .ok values

/-- What the text of the query is made of, its key values apart. -/
structure ReduceSelect where
  columns : String
  table : String
  keyColumn : String
  reducingCondition : String

namespace ReduceSelect

def keyValues (text : String) : Except String (List String) :=
  match removeFramingBrackets (trim text.toList) >>= splitValues with
  | .error error => .error error
  | .ok [] => .error "BDb::query_reduce_select: keyValues is empty"
  | .ok values => .ok (values.map String.ofList)

def singleValueSelectStatement (q : ReduceSelect) (value : String) : String :=
  "select " ++ q.columns ++ " from " ++ q.table ++ " where " ++ q.keyColumn ++ "=" ++ value ++ " " ++ q.reducingCondition

def queryReduceSelect (q : ReduceSelect) (text : String) : Except String String :=
  (keyValues text).map fun
    | [value] => q.singleValueSelectStatement value
    | values => "(" ++ "union".intercalate (values.map fun value => "(" ++ q.singleValueSelectStatement value ++ ")") ++
        ")" ++ q.reducingCondition

inductive Statement
  | select (value : String)
  | framed (statement : Statement)
  | union (first second : Statement)
  | reduce (statement : Statement)

namespace Statement

def text (q : ReduceSelect) : Statement → String
  | select value => q.singleValueSelectStatement value
  | framed statement => "(" ++ text q statement ++ ")"
  | union first second => text q first ++ "union" ++ text q second
  | reduce statement => "(" ++ text q statement ++ ")" ++ q.reducingCondition

def unions (first : Statement) (values : List String) : Statement :=
  values.foldl (fun statement value => union statement (framed (select value))) first

/-- The statement of a list of key values. -/
def ofValues : List String → Statement
  | [] => select ""
  | [value] => select value
  | first :: values => reduce (unions (framed (select first)) values)

end Statement

theorem text_unions (q : ReduceSelect) (first : Statement) (values : List String) :
    (Statement.unions first values).text q =
      "union".intercalate (first.text q :: values.map fun value => "(" ++ q.singleValueSelectStatement value ++ ")") := by
  induction values generalizing first with
  | nil => simp [Statement.unions]
  | cons value values ih =>
    refine (ih (.union first (.framed (.select value)))).trans ?_
    cases values <;> simp [Statement.text,String.append_assoc]

theorem keyValues_intercalate {values : List (List Char)} (filled : values ≠ [])
    (plain : ∀ value ∈ values, value ≠ [] ∧ (∀ c ∈ value, c ≠ ',') ∧ trim value = value) :
    keyValues (String.ofList ('(' :: ([','].intercalate values ++ [')']))) = .ok (values.map String.ofList) := by
  have framed : removeFramingBrackets (trim ('(' :: ([','].intercalate values ++ [')']))) =
      .ok ([','].intercalate values) := by
    have solid : trim ('(' :: ([','].intercalate values ++ [')'])) = '(' :: ([','].intercalate values ++ [')']) := by
      simp [trim,show isspace '(' = false by decide,show isspace ')' = false by decide]
    have last : ('(' :: ([','].intercalate values ++ [')'])).getLast? = some ')' := by
      rw [← List.cons_append,List.getLast?_concat]
    rw [solid]
    simp [removeFramingBrackets,last]
  have split : splitAny [','] ([','].intercalate values) = values :=
    splitAny_intercalate fun value member => ⟨(plain value member).1,(plain value member).2.1⟩
  have blank : values.filter (· ≠ []) = values :=
    List.filter_eq_self.mpr fun value member => by simpa using (plain value member).1
  have trimmed : values.map trim = values := by
    rw [List.map_congr_left fun value member => (plain value member).2.2,List.map_id']
  have taken : splitValues ([','].intercalate values) = .ok values := by
    simp only [splitValues,split,blank,trimmed]
    exact if_neg fun member => (plain [] member).1 rfl
  rw [keyValues,String.toList_ofList,framed]
  simp only [bind,Except.bind,taken]

theorem keyValues_ne_nil {text : String} {values : List String} (read : keyValues text = .ok values) : values ≠ [] := by
  unfold keyValues at read
  split at read
  next => cases read
  next => cases read
  next filled found =>
    cases read
    simpa using filled

/-- The text of the code is the text of the statement. -/
theorem queryReduceSelect_text (q : ReduceSelect) (text : String) :
    q.queryReduceSelect text = (keyValues text).map fun values => (Statement.ofValues values).text q := by
  unfold queryReduceSelect
  cases read : keyValues text with
  | error => rfl
  | ok values =>
    match values with
    | [] => exact absurd rfl (keyValues_ne_nil read)
    | [value] => rfl
    | first :: second :: values =>
      have united := text_unions q (.framed (.select first)) (second :: values)
      simp only [Except.map,Statement.ofValues,Statement.text,united]
      rfl

/-- The number that a text of digits stands for. -/
def numeral? (text : String) : Option Nat :=
  if text.toList ≠ [] ∧ text.toList.all Char.isDigit then some (Nat.ofDigitChars 10 text.toList 0) else none

theorem numeral_toDigits (n : Nat) : numeral? (String.ofList (Nat.toDigits 10 n)) = some n := by
  have digits : (Nat.toDigits 10 n).all Char.isDigit = true := List.all_eq_true.mpr fun c member =>
    Nat.isDigit_of_mem_toDigits (by decide) (by decide) member
  rw [numeral?,String.toList_ofList,if_pos ⟨Nat.toDigits_ne_nil,digits⟩,
    Nat.ofDigitChars_toDigits (by decide) (by decide)]

/-- What a name of the query stands for: the rows of the table, their key, what of a row is selected,
and the key that a key value denotes, where `none` is `NULL` and what the type of the key does not read. -/
structure Source (ρ κ β : Type) where
  rows : Multiset ρ
  key : ρ → Option κ
  columns : ρ → β
  literal : String → Option κ

namespace Source
variable {ρ κ β : Type} [DecidableEq κ] (s : Source ρ κ β) (reducing : Multiset β → Multiset β)

/-- Numerals are the same key just when they are the same number. -/
def ReadsNumerals : Prop :=
  ∀ first second m n, numeral? first = some m → numeral? second = some n →
    s.literal first ≠ none → s.literal second ≠ none → (s.literal first = s.literal second ↔ m = n)

/-- The rows whose key equals one of the keys; nothing equals `NULL`. -/
def rowsIn (keys : List (Option κ)) : Multiset β :=
  (s.rows.filter fun row => s.key row ≠ none ∧ s.key row ∈ keys).map s.columns

/-- `select columns from table where keyColumn in keyValues reducingCondition`. -/
def plain (values : List String) : Multiset β := reducing (s.rowsIn (values.map s.literal))

/-- The reduced rows of each key, with all their repetitions. -/
def parts (keys : List (Option κ)) : Multiset β := (keys.map fun key => reducing (s.rowsIn [key])).sum

theorem rowsIn_cons {key : Option κ} {keys : List (Option κ)} (fresh : key ∉ keys) :
    s.rowsIn (key :: keys) = s.rowsIn [key] + s.rowsIn keys := by
  unfold rowsIn
  rw [← Multiset.map_add,Multiset.filter_add_filter]
  have none' : s.rows.filter (fun row => (s.key row ≠ none ∧ s.key row ∈ [key]) ∧
      s.key row ≠ none ∧ s.key row ∈ keys) = 0 := by
    refine Multiset.filter_eq_nil.mpr fun row _ both => fresh ?_
    rw [← List.mem_singleton.mp both.1.2]
    exact both.2.2
  rw [none',add_zero]
  congr 2
  funext row
  simp only [List.mem_cons,List.not_mem_nil,or_false,← and_or_left]

theorem rowsIn_distinct {keys : List (Option κ)} (distinct : keys.Nodup) :
    s.rowsIn keys = (keys.map fun key => s.rowsIn [key]).sum := by
  induction keys with
  | nil => simp [rowsIn]
  | cons key keys ih =>
    obtain ⟨fresh,distinct⟩ := List.nodup_cons.mp distinct
    rw [s.rowsIn_cons fresh,ih distinct,List.map_cons,List.sum_cons]

theorem rowsIn_dedup (keys : List (Option κ)) : s.rowsIn keys.dedup = s.rowsIn keys := by
  simp [rowsIn]

/-- Nothing is lost of the plain query by reducing the rows of each key. -/
theorem reducing_parts {reducing : Multiset β → Multiset β} (lawful : Reducing reducing) (values : List String) :
    reducing (s.parts reducing (values.map s.literal).dedup) = s.plain reducing values := by
  have rows := s.rowsIn_distinct (List.nodup_dedup (values.map s.literal))
  rw [plain,← rowsIn_dedup,rows,← lawful.reduce_sum,List.map_map]
  rfl

/-- A table with a whole number for its key, from one on, in which the rows of a key are any given ones. -/
def keyed (rows : List (Multiset β)) : Source (Nat × β) Nat β where
  rows := ((List.range rows.length).map fun i => (rows.getD i 0).map (Prod.mk i)).sum
  key row := some (row.1 + 1)
  columns := Prod.snd
  literal := numeral?

theorem keyed_readsNumerals (rows : List (Multiset β)) : (keyed rows).ReadsNumerals := by
  intro first second m n one other _ _
  change numeral? first = numeral? second ↔ m = n
  rw [one,other,Option.some.injEq]

theorem rows_keyed (rows : Nat → Multiset β) (i n : Nat) :
    (((List.range n).map fun k => (rows k).map (Prod.mk k)).sum.filter fun row => row.1 = i).map Prod.snd =
      if i < n then rows i else 0 := by
  induction n with
  | zero => simp
  | succ n ih =>
    rw [List.range_succ,List.map_append,List.sum_append,Multiset.filter_add,Multiset.map_add,ih]
    by_cases last : n = i
    · subst last
      simp [Multiset.filter_map]
    · have earlier : i < n + 1 ↔ i < n := by omega
      simp [Multiset.filter_map,last,earlier]

theorem parts_keyed (rows : List (Multiset β)) :
    (keyed rows).parts reducing ((List.range rows.length).map fun i => some (i + 1)) = (rows.map reducing).sum := by
  unfold parts
  congr 1
  refine List.ext_getElem (by simp) fun i inside _ => ?_
  have small : i < rows.length := by simpa using inside
  have own := rows_keyed (fun k => rows.getD k 0) i rows.length
  have given : rows.getD i 0 = rows[i] := by simp [small]
  rw [if_pos small,given] at own
  rw [List.getElem_map,List.getElem_map,List.getElem_map,List.getElem_range,← own]
  simp [rowsIn,keyed]

variable [DecidableEq β]

/-- `UNION` leaves no repetition. -/
def denote : Statement → Multiset β
  | .select value => s.plain reducing [value]
  | .framed statement => denote statement
  | .union first second => (denote first + denote second).dedup
  | .reduce statement => reducing (denote statement)

theorem denote_unions (first : Statement) (value : String) (values : List String) :
    s.denote reducing (.unions first (value :: values)) =
      (s.denote reducing first + ((value :: values).map fun value => s.plain reducing [value]).sum).dedup := by
  induction values generalizing first value with
  | nil => simp [Statement.unions,denote]
  | cons next values ih =>
    refine (ih (.union first (.framed (.select value))) next).trans ?_
    refine Multiset.dedup_ext.mpr fun item => ?_
    simp [denote,or_assoc]

theorem parts_dedup (values : List String) :
    ((values.map fun value => s.plain reducing [value]).sum).dedup =
      (s.parts reducing (values.map s.literal).dedup).dedup := by
  refine Multiset.dedup_ext.mpr fun item => ?_
  rw [parts,mem_sum_bags,mem_sum_bags]
  simp [plain]

theorem denote_ofValues (first second : String) (values : List String) :
    s.denote reducing (.ofValues (first :: second :: values)) =
      reducing (s.parts reducing ((first :: second :: values).map s.literal).dedup).dedup := by
  rw [← parts_dedup]
  exact congrArg reducing (s.denote_unions reducing (.framed (.select first)) second values)

/-- The built statement and the plain one differ just where merging the parts loses a repetition
that the reduction tells. -/
theorem denote_iff {reducing : Multiset β → Multiset β} (lawful : Reducing reducing) {values : List String}
    (filled : values ≠ []) : s.denote reducing (.ofValues values) = s.plain reducing values ↔
      values.length = 1 ∨ reducing (s.parts reducing (values.map s.literal).dedup).dedup =
        reducing (s.parts reducing (values.map s.literal).dedup) := by
  match values with
  | [] => exact absurd rfl filled
  | [value] => exact iff_of_true rfl (.inl rfl)
  | first :: second :: values =>
    rw [denote_ofValues,← s.reducing_parts lawful]
    exact (or_iff_right (by simp)).symm

end Source

/-- The numerals from one on. -/
def countedKeys (count : Nat) : List (List Char) := (List.range count).map fun i => Nat.toDigits 10 (i + 1)

/-- The built query and the plain one select the same rows in every table. -/
def Agrees {β : Type} [DecidableEq β] (reducing : Multiset β → Multiset β) : Prop :=
  ∀ (ρ κ : Type) [DecidableEq κ] (s : Source ρ κ β), s.ReadsNumerals →
    ∀ (text : String) (values : List String), keyValues text = .ok values →
      s.denote reducing (.ofValues values) = s.plain reducing values

theorem agrees_merged {β : Type} [DecidableEq β] {reducing : Multiset β → Multiset β} (lawful : Reducing reducing)
    (agrees : Agrees reducing) (rows : List (Multiset β)) (several : 2 ≤ rows.length) :
    reducing (rows.map reducing).sum.dedup = reducing (rows.map reducing).sum := by
  have plain : ∀ value ∈ countedKeys rows.length, value ≠ [] ∧ (∀ c ∈ value, c ≠ ',') ∧ trim value = value := by
    intro value member
    obtain ⟨i,-,rfl⟩ := List.mem_map.mp member
    have plain (c : Char) (inside : c ∈ Nat.toDigits 10 (i + 1)) : c ≠ ',' ∧ isspace c = false := by
      have digit := Nat.isDigit_of_mem_toDigits (by decide) (by decide) inside
      refine ⟨?_,(DateTimeText.digit_begins digit).1⟩
      rintro rfl
      contradiction
    exact ⟨Nat.toDigits_ne_nil,fun c inside => (plain c inside).1,trim_solid fun c inside => (plain c inside).2⟩
  have filled : countedKeys rows.length ≠ [] := by
    simp only [countedKeys,ne_eq,List.map_eq_nil_iff,List.range_eq_nil]
    omega
  have read := keyValues_intercalate filled plain
  have same := agrees _ _ (Source.keyed rows) (Source.keyed_readsNumerals rows) _ _ read
  rw [Source.denote_iff _ lawful (keyValues_ne_nil read)] at same
  have keys : ((countedKeys rows.length).map String.ofList).map (Source.keyed rows).literal =
      (List.range rows.length).map fun i => some (i + 1) := by
    simp [countedKeys,Source.keyed,numeral_toDigits]
  have distinct : ((List.range rows.length).map fun i => some (i + 1)).Nodup :=
    List.nodup_range.map fun i j same => Nat.succ_injective (Option.some_injective Nat same)
  rw [keys,List.Nodup.dedup distinct,Source.parts_keyed] at same
  exact same.resolve_left (by simp [countedKeys]; omega)

/-- The built query and the plain one select the same rows exactly when there is one key value or the
reduction does not tell repetitions among the reduced rows of the keys, and in every table exactly when
the reduction tells repetitions in no bag. -/
theorem queries_agree_iff {β : Type} [DecidableEq β] {reducing : Multiset β → Multiset β}
    (lawful : Reducing reducing) :
    (∀ (q : ReduceSelect) (text : String),
      q.queryReduceSelect text = (keyValues text).map fun values => (Statement.ofValues values).text q) ∧
    (∀ (ρ κ : Type) [DecidableEq κ] (s : Source ρ κ β) (text : String) (values : List String),
      keyValues text = .ok values →
        (s.denote reducing (.ofValues values) = s.plain reducing values ↔
          values.length = 1 ∨ reducing (s.parts reducing (values.map s.literal).dedup).dedup =
            reducing (s.parts reducing (values.map s.literal).dedup))) ∧
    (Agrees reducing ↔ ∀ bag, reducing bag.dedup = reducing bag) := by
  refine ⟨queryReduceSelect_text,fun ρ κ _ s text values read =>
    s.denote_iff lawful (keyValues_ne_nil read),?_,?_⟩
  · intro agrees
    exact lawful.ignores_repetition (agrees_merged lawful agrees)
  · intro ignores ρ κ _ s _ text values read
    exact (s.denote_iff lawful (keyValues_ne_nil read)).mpr (.inr (ignores _))

/-- `group by` the selected columns. -/
theorem dedup_reducing : Reducing fun ids : Multiset Nat => ids.dedup where
  halves first second := by
    refine Multiset.dedup_ext.mpr fun id => ?_
    simp
  pairs items := by
    refine Multiset.dedup_ext.mpr fun id => ?_
    rw [mem_sum_bags,mem_sum_bags]
    simp

theorem grouped_agrees : Agrees fun ids : Multiset Nat => ids.dedup :=
  (queries_agree_iff dedup_reducing).2.2.mpr fun _ => Multiset.dedup_idem

/-- Without a reducing condition, what the two keys have in common is selected once. -/
theorem repetition_lost : ¬∀ reducing : Multiset Nat → Multiset Nat, Reducing reducing → Agrees reducing := by
  intro agrees
  have same := agrees id ⟨fun _ _ => rfl,fun _ => rfl⟩ _ _ (Source.keyed [{7},{7}]) (Source.keyed_readsNumerals _)
    "(1,2)" ["1","2"] (by decide)
  exact absurd same (by decide)

end ReduceSelect
end Call45Aggr
