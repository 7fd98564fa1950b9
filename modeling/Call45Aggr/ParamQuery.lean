import Call45Aggr.Library.Run
import Call45Aggr.NumberParsing
import Call45Aggr.StringStreambuf
import Mathlib.Logic.Function.Basic

/-! `ParamQuery`: the rows of parameters of a query. Memory never runs out. -/
namespace Call45Aggr
open Library
open NumberParsing (cString)

/-- A value is a C string or a null pointer. -/
abbrev QueryParameter := Option (List Char)

structure ParamQuery where
  query : String := ""
  width : Nat := 0
  rows : List (List QueryParameter) := []

namespace ParamQuery

def make (query : String) (width : Nat) : ParamQuery := {query,width,rows := [[]]}

/-- At the row `rows_.back()`, which an empty vector has not. -/
def pushBack (q : ParamQuery) (value : QueryParameter) : Option ParamQuery :=
  q.rows.getLast?.map fun row => {q with rows := q.rows.dropLast ++ [row ++ [value]]}

def addValue (q : ParamQuery) (src : String) : Option ParamQuery := q.pushBack (some (cString src))

def addNull (q : ParamQuery) : Option ParamQuery := q.pushBack none

def endRow (q : ParamQuery) : ParamQuery := {q with rows := q.rows ++ [[]]}

def levelsCount (q : ParamQuery) : Nat := q.rows.length

def isEmpty (q : ParamQuery) (rowIdx : Nat) : Bool :=
  if q.rows.length ≤ rowIdx then true else q.rows[rowIdx]?.all List.isEmpty

/-- The outer `none` is a row that does not exist, the inner one a null pointer. -/
def parameters (q : ParamQuery) (rowIdx : Nat) : Option (Except (List Char) (Option (List QueryParameter))) :=
  if q.rows.length < rowIdx then
    some (.error (concat ["Выход за границы уровня параметров ".toList,Sql.decimal rowIdx,"(из ".toList,
      Sql.decimal q.rows.length,")".toList]))
  else q.rows[rowIdx]?.map fun row =>
    if row = [] then .ok none
    else if row.length ≠ q.width then
      .error (concat ["Неверное количество параметров для запроса \"".toList,q.query.toList,"\". Ожидается: ".toList,
        Sql.decimal q.width,", передается: ".toList,Sql.decimal row.length])
    else .ok (some row)

/-- It throws, or gives nothing of an empty row, or the values of the row. -/
def WellFormed (q : ParamQuery) (rowIdx : Nat) : Prop :=
  (∃ message, q.parameters rowIdx = some (.error message)) ∨
    q.parameters rowIdx = some (.ok none) ∧ q.rows[rowIdx]? = some [] ∨
    ∃ row, q.parameters rowIdx = some (.ok (some row)) ∧ q.rows[rowIdx]? = some row ∧ row.length = q.width

/-- What is done with the queries, each of which is a number. -/
inductive Operation
  | construct (query : Nat) (text : String) (width : Nat)
  | move (query source : Nat)
  | addValue (query : Nat) (src : String)
  | addNull (query : Nat)
  | endRow (query : Nat)

/-- What is moved from is left empty, also where it is moved to itself. -/
def step (queries : Nat → ParamQuery) : Operation → Option (Nat → ParamQuery)
  | .construct query text width => some (Function.update queries query (make text width))
  | .move query source => some (Function.update (Function.update queries query (queries source)) source {})
  | .addValue query src => ((queries query).addValue src).map (Function.update queries query)
  | .addNull query => (queries query).addNull.map (Function.update queries query)
  | .endRow query => some (Function.update queries query (queries query).endRow)

/-- The number of rows that each query has after the operations. -/
def advance (levels : Nat → Nat) : Operation → Nat → Nat
  | .construct query _ _ => Function.update levels query 1
  | .move query source => Function.update (Function.update levels query (levels source)) source 0
  | .addValue _ _ | .addNull _ => levels
  | .endRow query => Function.update levels query (levels query + 1)

def levels (operations : List Operation) : Nat → Nat := operations.foldl advance fun _ => 0

/-- A value is only added where there is a row. -/
def Fed (levels : Nat → Nat) : Operation → Prop
  | .addValue query _ | .addNull query => levels query ≠ 0
  | .construct _ _ _ | .move _ _ | .endRow _ => True

theorem pushBack_rows {q : ParamQuery} (filled : q.rows.length ≠ 0) (value : QueryParameter) :
    ∃ after, q.pushBack value = some after ∧ after.rows.length = q.rows.length := by
  have some' : q.rows ≠ [] := fun empty => filled (congrArg List.length empty)
  rw [pushBack,List.getLast?_eq_some_getLast some']
  refine ⟨_,rfl,?_⟩
  rw [List.length_append,List.length_dropLast,List.length_singleton]
  omega

theorem pushBack_none {q : ParamQuery} (empty : q.rows.length = 0) (value : QueryParameter) : q.pushBack value = none := by
  rw [pushBack,List.length_eq_zero_iff.mp empty]
  rfl

theorem wellFormed_iff (q : ParamQuery) (rowIdx : Nat) : q.WellFormed rowIdx ↔ rowIdx ≠ q.levelsCount := by
  rcases lt_trichotomy q.rows.length rowIdx with beyond | same | inside
  · exact iff_of_true (.inl ⟨_,if_pos beyond⟩) (Nat.ne_of_gt beyond)
  · -- the test lets the number of the rows through
    have missing : q.parameters rowIdx = none := by
      rw [parameters,if_neg (Nat.not_lt.mpr same.ge),List.getElem?_eq_none same.le]
      rfl
    simp [WellFormed,missing,levelsCount,same]
  · refine iff_of_true ?_ (Nat.ne_of_lt inside)
    obtain ⟨row,found⟩ : ∃ row, q.rows[rowIdx]? = some row := ⟨_,List.getElem?_eq_getElem inside⟩
    have read : q.parameters rowIdx = _ := (if_neg (Nat.not_lt.mpr inside.le)).trans (congrArg (Option.map _) found)
    rw [WellFormed,read,found,Option.map_some]
    by_cases empty : row = []
    · exact .inr (.inl ⟨congrArg some (if_pos empty),congrArg some empty⟩)
    rw [if_neg empty]
    by_cases width : row.length = q.width
    · exact .inr (.inr ⟨row,congrArg some (if_neg (not_not_intro width)),rfl,width⟩)
    · exact .inl ⟨_,congrArg some (if_pos width)⟩

/-- A row that is not empty is there, so the rows that a query is executed with are well formed. -/
theorem wellFormed_of_filled {q : ParamQuery} {rowIdx : Nat} (filled : q.isEmpty rowIdx = false) : q.WellFormed rowIdx := by
  rw [wellFormed_iff]
  rintro rfl
  simp [isEmpty,levelsCount] at filled

/-- The operations see no more of a query than the number of its rows. -/
theorem step_cases {queries : Nat → ParamQuery} {levels : Nat → Nat}
    (same : ∀ query, (queries query).levelsCount = levels query) (operation : Operation) :
    (Fed levels operation ∧ ∃ after, step queries operation = some after ∧
      ∀ query, (after query).levelsCount = advance levels operation query) ∨
    ¬Fed levels operation ∧ step queries operation = none := by
  have added (query : Nat) (value : QueryParameter) :
      (levels query ≠ 0 ∧ ∃ after, ((queries query).pushBack value).map (Function.update queries query) = some after ∧
        ∀ other, (after other).levelsCount = levels other) ∨
      ¬levels query ≠ 0 ∧ ((queries query).pushBack value).map (Function.update queries query) = none := by
    rw [← same query]
    by_cases empty : (queries query).rows.length = 0
    · exact .inr ⟨not_not_intro empty,by rw [pushBack_none empty,Option.map_none]⟩
    · obtain ⟨after,pushed,size⟩ := pushBack_rows empty value
      refine .inl ⟨empty,_,by rw [pushed,Option.map_some],fun other => ?_⟩
      rw [← same other,Function.update_apply]
      split
      next here => exact here ▸ size
      next => rfl
  cases operation with
  | construct query text width =>
    refine .inl ⟨trivial,_,rfl,fun other => ?_⟩
    rw [advance,Function.update_apply,Function.update_apply]
    split
    · rfl
    · exact same other
  | move query source =>
    refine .inl ⟨trivial,_,rfl,fun other => ?_⟩
    simp only [advance,Function.update_apply]
    split
    · rfl
    split
    · exact same source
    · exact same other
  | addValue query src => exact added query (some (cString src))
  | addNull query => exact added query none
  | endRow query =>
    refine .inl ⟨trivial,_,rfl,fun other => ?_⟩
    rw [advance,Function.update_apply,Function.update_apply,← same query]
    split
    · exact List.length_append
    · exact same other

theorem execute_cases {queries : Nat → ParamQuery} {levels : Nat → Nat}
    (same : ∀ query, (queries query).levelsCount = levels query) (operations : List Operation) :
    (Along (fun levels operation => some (advance levels operation)) Fed operations levels ∧
      ∃ after, execute step Always operations queries = some after ∧
        ∀ query, (after query).levelsCount = operations.foldl advance levels query) ∨
    ¬Along (fun levels operation => some (advance levels operation)) Fed operations levels ∧
      execute step Always operations queries = none := by
  induction operations generalizing queries levels with
  | nil => exact .inl ⟨trivial,queries,rfl,same⟩
  | cons operation operations ih =>
    have permitted : Always queries operation := trivial
    rw [execute,if_pos permitted]
    rcases step_cases same operation with ⟨fed,after,stepped,next⟩ | ⟨starved,stepped⟩
    · rw [stepped]
      rcases ih next with ⟨later,final,ran,last⟩ | ⟨starved,ran⟩
      · exact .inl ⟨⟨fed,fun _ here => Option.some.inj here ▸ later⟩,final,ran,last⟩
      · exact .inr ⟨fun along => starved (along.2 _ rfl),ran⟩
    · rw [stepped]
      exact .inr ⟨fun along => starved along.1,rfl⟩

/-- A query has a row to add to and `parameters` of a row is well formed exactly if values were only
added where there was a row, there is one now, and the row is not the one behind the last. -/
theorem parameters_sound_iff (operations : List Operation) (query rowIdx : Nat) :
    (∃ queries, execute step Always operations (fun _ => {}) = some queries ∧
      (queries query).rows ≠ [] ∧ (queries query).WellFormed rowIdx) ↔
    Along (fun levels operation => some (advance levels operation)) Fed operations (fun _ => 0) ∧
      levels operations query ≠ 0 ∧ rowIdx ≠ levels operations query := by
  rcases @execute_cases (fun _ => {}) (fun _ => 0) (fun _ => rfl) operations with
    ⟨fed,queries,ran,counts⟩ | ⟨starved,ran⟩
  · have filled : (queries query).rows ≠ [] ↔ levels operations query ≠ 0 := by
      rw [levels,← counts query,levelsCount]
      exact not_congr List.length_eq_zero_iff.symm
    have sound : (queries query).WellFormed rowIdx ↔ rowIdx ≠ levels operations query := by
      rw [wellFormed_iff,counts query,levels]
    rw [and_iff_right fed,← filled,← sound]
    constructor
    · rintro ⟨other,ran',good⟩
      cases ran.symm.trans ran'
      exact good
    · exact fun good => ⟨queries,ran,good⟩
  · refine iff_of_false ?_ fun met => starved met.1
    rintro ⟨other,ran',-⟩
    cases ran.symm.trans ran'

/-- A query that is constructed without a text has no row, and one with a text has no row 1. -/
theorem row_missing : ¬(∀ operations, ∃ queries, execute step Always operations (fun _ => {}) = some queries) ∧
    ¬∀ (operations : List Operation) (query rowIdx : Nat) (queries : Nat → ParamQuery),
      execute step Always operations (fun _ => {}) = some queries → (queries query).WellFormed rowIdx := by
  constructor
  · intro fed
    obtain ⟨queries,ran⟩ := fed [.addValue 0 "7"]
    cases ran
  · intro sound
    exact (wellFormed_iff _ _).mp (sound [.construct 0 "SELECT $1" 1] 0 1 _ rfl) rfl

end ParamQuery
end Call45Aggr
