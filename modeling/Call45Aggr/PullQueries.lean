import Call45Aggr.Puller
import Mathlib.Data.List.Perm.Basic

/-! The texts of the statements of a pull, and what they do to the destination on a
server whose meaning of them is a parameter. -/
namespace Call45Aggr

/-- The texts a `Puller` is built from. -/
structure PullTexts where
  srcTable : String
  dstTable : String
  key : String
  srcSqlWhere : String
  fields : List String

def intersectConditions (firstCondition secondCondition : String) : String :=
  if firstCondition = "" then secondCondition
  else if secondCondition = "" then firstCondition
  else "(" ++ firstCondition ++ ") and (" ++ secondCondition ++ ")"

def joinThrough (container : List String) (separator : String) : String :=
  String.intercalate separator container

namespace PullTexts

def getQueryFields (p : PullTexts) : String := "\"" ++ joinThrough p.fields "\",\"" ++ "\""

def isFullPullRequired (p : PullTexts) (ids : List Int) : Bool :=
  decide (p.key = "") || ids.any fun id => decide (id = 0)

def keySelection (p : PullTexts) (ids : List Int) : String :=
  "\"" ++ p.key ++ "\" in (" ++ joinThrough (ids.map toString) "," ++ ")"

/-- The condition on the rows and the query that clears the table. -/
def createUpdateQueries (p : PullTexts) (ids : List Int) : String × String :=
  if p.isFullPullRequired ids then (p.srcSqlWhere,"truncate " ++ p.dstTable)
  else
    (intersectConditions p.srcSqlWhere (p.keySelection ids),
      "delete from " ++ p.dstTable ++ " where " ++ p.keySelection ids)

/-- `query_read` of `BDb::copy_ex`. -/
def queryRead (p : PullTexts) (condition : String) : String :=
  "copy (select " ++ p.getQueryFields ++ " from " ++ p.srcTable ++
    (if condition = "" then "" else " where " ++ condition) ++ ") to stdout with binary"

def queryWrite (p : PullTexts) : String :=
  "copy " ++ p.dstTable ++ "(" ++ p.getQueryFields ++ ") from stdin with binary"

end PullTexts

/-- What the two servers make of texts. A condition has a value in each row, `none` being
unknown; a text it cannot read is no condition, and a statement without an answer is
refused. -/
structure Sql (ρ τ ν : Type) where
  condition : String → Option (ρ → Option Bool)
  column : String → ρ → ν
  equals : ν → Int → Option Bool
  columns : String → ρ → τ
  exec : String → List ρ → Option (List ρ)
  copyTo : String → List ρ → Option (List τ)
  copyFrom : String → List τ → List ρ → Option (List ρ)

def either (p q : Option Bool) : Option Bool :=
  match p,q with
  | some true,_ | _,some true => some true
  | some false,some false => some false
  | _,_ => none

def both (p q : Option Bool) : Option Bool :=
  match p,q with
  | some true,some true => some true
  | some false,_ | _,some false => some false
  | _,_ => none

namespace Sql
variable {ρ τ ν : Type}

/-- `"key" in (ids)` -/
def listed (sql : Sql ρ τ ν) (p : PullTexts) (ids : List Int) (row : ρ) : Option Bool :=
  ids.foldr (fun id found => either (sql.equals (sql.column p.key row) id) found) (some false)

def holds (meaning : ρ → Option Bool) (row : ρ) : Bool := decide (meaning row = some true)

theorem holds_some (meaning : ρ → Bool) : holds (fun row => some (meaning row)) = meaning := by
  funext row
  simp [holds]

/-- The meaning that the filter of the source has where it is a condition by itself. -/
def Filters (sql : Sql ρ τ ν) (p : PullTexts) (filter : ρ → Option Bool) : Prop :=
  if p.srcSqlWhere = "" then filter = fun _ => some true else sql.condition p.srcSqlWhere = some filter

/-- The conditions of a pull. -/
def Composed (p : PullTexts) (ids : List Int) (text : String) : Prop :=
  text = p.srcSqlWhere ∨ text = p.keySelection ids ∨
    text = "(" ++ p.srcSqlWhere ++ ") and (" ++ p.keySelection ids ++ ")"

/-- The standard meaning of the statements of a pull, as far as the servers accept them. -/
structure Standard (sql : Sql ρ τ ν) (p : PullTexts) (ids : List Int) : Prop where
  membership : ∀ meaning, sql.condition (p.keySelection ids) = some meaning → meaning = sql.listed p ids
  conjunction : ∀ filter meaning, sql.condition p.srcSqlWhere = some filter →
    sql.condition ("(" ++ p.srcSqlWhere ++ ") and (" ++ p.keySelection ids ++ ")") = some meaning →
      ∃ selection, sql.condition (p.keySelection ids) = some selection ∧
        meaning = fun row => both (filter row) (selection row)
  truncate : ∀ rows after, sql.exec ("truncate " ++ p.dstTable) rows = some after → after = []
  delete : ∀ rows after, sql.exec ("delete from " ++ p.dstTable ++ " where " ++ p.keySelection ids) rows =
    some after → ∃ meaning, sql.condition (p.keySelection ids) = some meaning ∧
      after.Perm (rows.filter fun row => !holds meaning row)
  select : ∀ rows data, sql.copyTo (p.queryRead "") rows = some data →
    data.Perm (rows.map (sql.columns p.getQueryFields))
  selectWhere : ∀ text rows data, Composed p ids text → text ≠ "" →
    sql.copyTo (p.queryRead text) rows = some data → ∃ meaning, sql.condition text = some meaning ∧
      data.Perm ((rows.filter (holds meaning)).map (sql.columns p.getQueryFields))
  copyFrom : ∀ data rows after, sql.copyFrom p.queryWrite data rows = some after →
    ∃ copied, copied.map (sql.columns p.getQueryFields) = data ∧ after.Perm (rows ++ copied)

end Sql

/-- A statement that the server answers or refuses, on a connection that holds. -/
def Trial.steady (answered : Bool) : Trial :=
  ⟨.ok,if answered then .answered else .refused,⟨.ok,.answered⟩,⟨.ok,.answered⟩⟩

namespace PullTexts
variable {ρ τ ν : Type}

def copyEffect (p : PullTexts) (sql : Sql ρ τ ν) (source : List ρ) (condition : String) (rows : List ρ) :
    Option (List ρ) :=
  (sql.copyTo (p.queryRead condition) source).bind fun data => sql.copyFrom p.queryWrite data rows

/-- `exec` of the query that clears and `BDb::copy`; each is refused or takes effect. -/
def clearAndCopy (p : PullTexts) (sql : Sql ρ τ ν) (source : List ρ) (ids : List Int) (before : List ρ)
    (slaveDb : Db (List ρ)) : Db (List ρ) × Bool :=
  let (condition,clearQuery) := p.createUpdateQueries ids
  let cleared := sql.exec clearQuery before
  match Db.exec ⟨.plain false,fun rows => (sql.exec clearQuery rows).getD rows⟩ (.steady cleared.isSome)
      (.steady cleared.isSome) slaveDb with
  | (slaveDb,.done) =>
    slaveDb.copyEx ⟨true,(sql.copyTo (p.queryRead condition) source).isSome,.ok,
        if (cleared.bind (p.copyEffect sql source condition)).isSome then .answered else .refused⟩
      fun rows => (p.copyEffect sql source condition rows).getD rows
  | (slaveDb,_) => (slaveDb,false)

def pull (p : PullTexts) (sql : Sql ρ τ ν) (source : List ρ) (ids : List Int) (destination : List ρ) :
    Db (List ρ) × Bool :=
  Db.transaction ⟨(.steady true,.steady true),(.steady true,.steady true),(.steady true,.steady true)⟩
    (p.clearAndCopy sql source ids destination) (Db.start destination .ready)

/-- Where a statement is refused the destination stays as it was. -/
def pulled (p : PullTexts) (sql : Sql ρ τ ν) (source : List ρ) (ids : List Int) (destination : List ρ) :
    Option (List ρ) :=
  (sql.exec (p.createUpdateQueries ids).2 destination).bind
    (p.copyEffect sql source (p.createUpdateQueries ids).1)

theorem pull_eq (p : PullTexts) (sql : Sql ρ τ ν) (source : List ρ) (ids : List Int) (destination : List ρ) :
    ((p.pull sql source ids destination).1.committed,(p.pull sql source ids destination).2) =
      match p.pulled sql source ids destination with
      | some after => (after,true)
      | none => (destination,false) := by
  have begins : Db.exec Db.begin' (.steady true) (.steady true) (Db.start destination .ready) =
      ((Db.start destination .ready).began,.done) := rfl
  simp only [pull,Db.transaction,begins,pulled,clearAndCopy]
  cases cleared : sql.exec (p.createUpdateQueries ids).2 destination with
  | none => rfl
  | some rows =>
    have answered : Db.exec ⟨.plain false,fun rows => (sql.exec (p.createUpdateQueries ids).2 rows).getD rows⟩
        (.steady true) (.steady true) (Db.start destination .ready).began =
          ({Db.start destination .ready with conn := .live (some {work := rows})},.done) := by
      have effect : (sql.exec (p.createUpdateQueries ids).2 destination).getD destination = rows := by
        rw [cleared]
        rfl
      rw [← effect]
      rfl
    simp only [Option.isSome_some,answered,Option.bind_some]
    rcases Option.eq_none_or_eq_some (p.copyEffect sql source (p.createUpdateQueries ids).1 rows) with
      copied | ⟨after,copied⟩
    · simp only [copied]
      cases (sql.copyTo (p.queryRead (p.createUpdateQueries ids).1) source).isSome <;> rfl
    · have read : (sql.copyTo (p.queryRead (p.createUpdateQueries ids).1) source).isSome = true := by
        obtain ⟨data,answer,_⟩ := Option.bind_eq_some_iff.mp copied
        simp [answer]
      have effect : (p.copyEffect sql source (p.createUpdateQueries ids).1 rows).getD rows = after := by
        rw [copied]
        rfl
      simp only [copied,read]
      rw [← effect]
      rfl

theorem pull_cases (p : PullTexts) (sql : Sql ρ τ ν) (source : List ρ) (ids : List Int) (destination : List ρ) :
    ((p.pull sql source ids destination).2 = true ∧
        p.pulled sql source ids destination = some (p.pull sql source ids destination).1.committed) ∨
      (p.pull sql source ids destination).2 = false ∧
        (p.pull sql source ids destination).1.committed = destination := by
  have result := p.pull_eq sql source ids destination
  cases pulled : p.pulled sql source ids destination with
  | none =>
    rw [pulled] at result
    exact .inr ⟨congrArg Prod.snd result,congrArg Prod.fst result⟩
  | some after =>
    rw [pulled] at result
    exact .inl ⟨congrArg Prod.snd result,congrArg some (congrArg Prod.fst result).symm⟩

/-- The rows that a pull removes from the destination and reads anew. -/
def replaced (p : PullTexts) (sql : Sql ρ τ ν) (ids : List Int) (row : ρ) : Bool :=
  p.isFullPullRequired ids || Sql.holds (sql.listed p ids) row

theorem both_true (first second : Option Bool) :
    decide (both first second = some true) = (decide (first = some true) && decide (second = some true)) := by
  cases first with
  | none => cases second with
    | none => rfl
    | some q => cases q <;> rfl
  | some p => cases p <;> cases second with
    | none => rfl
    | some q => cases q <;> rfl

theorem append_ne_empty {text : String} (some : text ≠ "") (before after : String) :
    before ++ text ++ after ≠ "" := by
  intro empty
  have none : (before ++ text ++ after).length = 0 := by rw [empty]; rfl
  simp only [String.length_append] at none
  exact some (String.length_eq_zero_iff.mp (by omega))

theorem keySelection_ne (p : PullTexts) (ids : List Int) : p.keySelection ids ≠ "" := by
  have quote : "\"" ≠ "" := by decide
  rw [keySelection,String.append_assoc,String.append_assoc,String.append_assoc]
  exact append_ne_empty quote "" _

/-- The destination is the filtered source on the rows whose key is not in the list. -/
def AgreesOutside (p : PullTexts) (sql : Sql ρ τ ν) (ids : List Int) (filter : ρ → Option Bool)
    (source destination : List ρ) : Prop :=
  ((destination.filter fun row => !Sql.holds (sql.listed p ids) row).map (sql.columns p.getQueryFields)).Perm
    ((source.filter fun row => Sql.holds filter row && !Sql.holds (sql.listed p ids) row).map
      (sql.columns p.getQueryFields))

variable {p : PullTexts} {sql : Sql ρ τ ν} {ids : List Int} (standard : sql.Standard p ids)
include standard

theorem cleared_perm {rows after : List ρ} (cleared : sql.exec (p.createUpdateQueries ids).2 rows = some after) :
    after.Perm (rows.filter fun row => !p.replaced sql ids row) := by
  cases full : p.isFullPullRequired ids with
  | true =>
    simp only [createUpdateQueries,full,if_true] at cleared
    simp [standard.truncate rows after cleared,replaced,full]
  | false =>
    simp only [createUpdateQueries,full,Bool.false_eq_true,if_false] at cleared
    obtain ⟨meaning,known,left⟩ := standard.delete rows after cleared
    rw [standard.membership meaning known] at left
    simpa [replaced,full] using left

theorem read_perm {filter : ρ → Option Bool} (filters : sql.Filters p filter) {source : List ρ} {data : List τ}
    (read : sql.copyTo (p.queryRead (p.createUpdateQueries ids).1) source = some data) :
    data.Perm ((source.filter fun row => Sql.holds filter row && p.replaced sql ids row).map
      (sql.columns p.getQueryFields)) := by
  unfold Sql.Filters at filters
  cases full : p.isFullPullRequired ids with
  | true =>
    simp only [createUpdateQueries,full,if_true] at read
    simp only [replaced,full,Bool.true_or,Bool.and_true]
    split at filters
    next empty =>
      rw [empty] at read
      have every : (source.filter (Sql.holds filter)) = source := by simp [filters,Sql.holds]
      rw [every]
      exact standard.select source data read
    next some =>
      obtain ⟨meaning,known,rows⟩ := standard.selectWhere _ source data (.inl rfl) some read
      rw [filters] at known
      cases known
      exact rows
  | false =>
    simp only [createUpdateQueries,full,Bool.false_eq_true,if_false,intersectConditions,
      p.keySelection_ne ids] at read
    simp only [replaced,full,Bool.false_or]
    split at filters
    next empty =>
      rw [if_pos empty] at read
      obtain ⟨meaning,known,rows⟩ :=
        standard.selectWhere _ source data (.inr (.inl rfl)) (p.keySelection_ne ids) read
      rw [standard.membership meaning known] at rows
      have same : (fun row => Sql.holds filter row && Sql.holds (sql.listed p ids) row) =
          Sql.holds (sql.listed p ids) := by
        funext row
        simp [filters,Sql.holds]
      rw [same]
      exact rows
    next some =>
      rw [if_neg some] at read
      have text : "(" ++ p.srcSqlWhere ++ ") and (" ++ p.keySelection ids ++ ")" ≠ "" := by
        exact append_ne_empty (p.keySelection_ne ids) _ _
      obtain ⟨meaning,known,rows⟩ := standard.selectWhere _ source data (.inr (.inr rfl)) text read
      obtain ⟨selection,selects,rfl⟩ := standard.conjunction filter meaning filters known
      rw [standard.membership selection selects] at rows
      have same : Sql.holds (fun row => both (filter row) (sql.listed p ids row)) =
          fun row => Sql.holds filter row && Sql.holds (sql.listed p ids) row :=
        funext fun row => both_true (filter row) (sql.listed p ids row)
      rw [← same]
      exact rows

theorem pulled_filtered {filter : ρ → Option Bool} (filters : sql.Filters p filter)
    {source destination after : List ρ}
    (outside : p.isFullPullRequired ids = true ∨ p.AgreesOutside sql ids filter source destination)
    (pulled : p.pulled sql source ids destination = some after) :
    (after.map (sql.columns p.getQueryFields)).Perm
      ((source.filter (Sql.holds filter)).map (sql.columns p.getQueryFields)) := by
  obtain ⟨rows,cleared,copied⟩ := Option.bind_eq_some_iff.mp pulled
  obtain ⟨data,read,written⟩ := Option.bind_eq_some_iff.mp copied
  obtain ⟨new,whole,appended⟩ := standard.copyFrom data rows after written
  have kept : (rows.map (sql.columns p.getQueryFields)).Perm
      ((source.filter fun row => Sql.holds filter row && !p.replaced sql ids row).map
        (sql.columns p.getQueryFields)) := by
    refine ((cleared_perm standard cleared).map _).trans ?_
    cases full : p.isFullPullRequired ids with
    | true => simp [replaced,full]
    | false =>
      have agrees := outside.resolve_left (by simp [full])
      simp only [replaced,full,Bool.false_or]
      exact agrees
  have parts := List.filter_append_perm (fun row => !p.replaced sql ids row) (source.filter (Sql.holds filter))
  refine (appended.map _).trans ?_
  rw [List.map_append,whole]
  refine (kept.append (read_perm standard filters read)).trans ?_
  rw [← List.map_append]
  refine List.Perm.map _ ?_
  simpa only [List.filter_filter,Bool.not_not,Bool.and_comm] using parts

/-- A pull of a list that agrees outside it leaves the filtered source, as any full pull
does, or fails and leaves the destination. -/
theorem pulls_agree {filter : ρ → Option Bool} (filters : sql.Filters p filter) {source destination : List ρ}
    (agrees : p.AgreesOutside sql ids filter source destination) :
    let after := p.pull sql source ids destination
    (after.2 = true → (after.1.committed.map (sql.columns p.getQueryFields)).Perm
        ((source.filter (Sql.holds filter)).map (sql.columns p.getQueryFields)) ∧
      ∀ all before, p.isFullPullRequired all = true → sql.Standard p all →
        (p.pull sql source all before).2 = true →
        (after.1.committed.map (sql.columns p.getQueryFields)).Perm
          ((p.pull sql source all before).1.committed.map (sql.columns p.getQueryFields))) ∧
      (after.2 = false → after.1.committed = destination) := by
  intro after
  obtain ⟨done,pulled⟩ | ⟨failed,kept⟩ := p.pull_cases sql source ids destination
  · have filtered := pulled_filtered standard filters (.inr agrees) pulled
    refine ⟨fun _ => ⟨filtered,fun all before full meant ends => ?_⟩,fun failed => ?_⟩
    · obtain ⟨_,whole⟩ | ⟨broken,_⟩ := p.pull_cases sql source all before
      · exact filtered.trans (pulled_filtered meant filters (.inl full) whole).symm
      · rw [ends] at broken
        contradiction
    · rw [done] at failed
      contradiction
  · refine ⟨fun done => ?_,fun _ => kept⟩
    rw [failed] at done
    contradiction

end PullTexts

def vips : PullTexts := ⟨"person","vip","id","vip or age > 90",["id"]⟩

/-- Servers that read the texts of `vips` for the ids 1 and 2, on rows of an id, `vip`
and an age. -/
def vipSql : Sql (Int × Bool × Nat) Int Int where
  condition text :=
    if text = vips.keySelection [1,2] then some fun row => some (decide (row.1 = 1 ∨ row.1 = 2))
    else if text = vips.srcSqlWhere then some fun row => some (row.2.1 || decide (row.2.2 > 90))
    else if text = (vips.createUpdateQueries [1,2]).1 then
      some fun row => some ((row.2.1 || decide (row.2.2 > 90)) && decide (row.1 = 1 ∨ row.1 = 2))
    else none
  column _ row := row.1
  equals value id := some (decide (value = id))
  columns _ row := row.1
  exec text rows :=
    if text = (vips.createUpdateQueries [1,2]).2 then
      some (rows.filter fun row => !decide (row.1 = 1 ∨ row.1 = 2))
    else none
  copyTo text rows :=
    if text = vips.queryRead (vips.createUpdateQueries [1,2]).1 then
      some ((rows.filter fun row =>
        (row.2.1 || decide (row.2.2 > 90)) && decide (row.1 = 1 ∨ row.1 = 2)).map (·.1))
    else none
  copyFrom text data rows :=
    if text = vips.queryWrite then some (rows ++ data.map fun id => (id,false,0)) else none

theorem vips_texts : vips.srcSqlWhere ≠ vips.keySelection [1,2] ∧
    (vips.createUpdateQueries [1,2]).1 ≠ vips.keySelection [1,2] ∧
    (vips.createUpdateQueries [1,2]).1 ≠ vips.srcSqlWhere ∧
    (vips.createUpdateQueries [1,2]).2 ≠ "truncate vip" ∧
    vips.queryRead "" ≠ vips.queryRead (vips.createUpdateQueries [1,2]).1 ∧
    vips.queryRead vips.srcSqlWhere ≠ vips.queryRead (vips.createUpdateQueries [1,2]).1 ∧
    vips.queryRead (vips.keySelection [1,2]) ≠ vips.queryRead (vips.createUpdateQueries [1,2]).1 := by
  decide

theorem vipSql_listed (row : Int × Bool × Nat) :
    vipSql.listed vips [1,2] row = some (decide (row.1 = 1 ∨ row.1 = 2)) := by
  by_cases one : row.1 = 1 <;> by_cases two : row.1 = 2 <;> simp [Sql.listed,vipSql,either,one,two]

theorem vipSql_condition :
    vipSql.condition (vips.keySelection [1,2]) = some (fun row => some (decide (row.1 = 1 ∨ row.1 = 2))) ∧
    vipSql.condition vips.srcSqlWhere = some (fun row => some (row.2.1 || decide (row.2.2 > 90))) ∧
    vipSql.condition (vips.createUpdateQueries [1,2]).1 = some (fun row =>
      some ((row.2.1 || decide (row.2.2 > 90)) && decide (row.1 = 1 ∨ row.1 = 2))) := by
  obtain ⟨filter,both',whole,_⟩ := vips_texts
  simp only [vipSql,if_neg filter,if_neg both',if_neg whole,if_true,and_self]

theorem vipSql_standard : vipSql.Standard vips [1,2] where
  membership := by
    intro meaning known
    rw [vipSql_condition.1] at known
    cases known
    funext row
    rw [vipSql_listed]
  conjunction := by
    intro filter meaning filters known
    obtain ⟨selects,where',whole⟩ := vipSql_condition
    have text : "(" ++ vips.srcSqlWhere ++ ") and (" ++ vips.keySelection [1,2] ++ ")" =
        (vips.createUpdateQueries [1,2]).1 := by decide
    rw [where'] at filters
    rw [text,whole] at known
    cases filters
    cases known
    refine ⟨_,selects,?_⟩
    funext row
    dsimp only
    cases row.2.1 || decide (row.2.2 > 90) <;> cases decide (row.1 = 1 ∨ row.1 = 2) <;> rfl
  truncate := by
    intro rows after done
    obtain ⟨_,_,_,clear,_⟩ := vips_texts
    have refused : vipSql.exec ("truncate " ++ vips.dstTable) rows = none := by
      simp only [vipSql]
      exact if_neg (Ne.symm clear)
    rw [refused] at done
    contradiction
  delete := by
    intro rows after done
    have removed : vipSql.exec ("delete from " ++ vips.dstTable ++ " where " ++ vips.keySelection [1,2]) rows =
      some (rows.filter fun row => !decide (row.1 = 1 ∨ row.1 = 2)) := by
        simp only [vipSql]
        exact if_pos rfl
    rw [removed] at done
    cases done
    refine ⟨_,vipSql_condition.1,?_⟩
    have same (row : Int × Bool × Nat) :
        Sql.holds (fun row : Int × Bool × Nat => some (decide (row.1 = 1 ∨ row.1 = 2))) row =
          decide (row.1 = 1 ∨ row.1 = 2) := congrFun (Sql.holds_some _) row
    simp only [same]
    exact .rfl
  select := by
    intro rows data read
    obtain ⟨_,_,_,_,plain,_⟩ := vips_texts
    have refused : vipSql.copyTo (vips.queryRead "") rows = none := by simp only [vipSql,if_neg plain]
    rw [refused] at read
    contradiction
  selectWhere := by
    intro text rows data composed _ read
    obtain ⟨_,_,_,_,_,filtered,selected⟩ := vips_texts
    obtain rfl | rfl | rfl := composed
    · rw [show vipSql.copyTo (vips.queryRead vips.srcSqlWhere) rows = none by simp only [vipSql,if_neg filtered]] at read
      contradiction
    · rw [show vipSql.copyTo (vips.queryRead (vips.keySelection [1,2])) rows = none by simp only [vipSql,if_neg selected]] at read
      contradiction
    · refine ⟨_,vipSql_condition.2.2,?_⟩
      have known : vipSql.copyTo (vips.queryRead (vips.createUpdateQueries [1,2]).1) rows = some
        ((rows.filter fun row =>
          (row.2.1 || decide (row.2.2 > 90)) && decide (row.1 = 1 ∨ row.1 = 2)).map (·.1)) := by
        simp only [vipSql,if_true]
      rw [show vipSql.copyTo (vips.queryRead (vips.createUpdateQueries [1,2]).1) rows = some data from read] at known
      cases known
      rw [Sql.holds_some]
      exact .rfl
  copyFrom := by
    intro data rows after done
    have copied : vipSql.copyFrom vips.queryWrite data rows =
      some (rows ++ data.map fun id => (id,false,0)) := by simp only [vipSql,if_true]
    rw [copied] at done
    cases done
    exact ⟨_,by simp [vipSql,Function.comp_def],.rfl⟩

/-- The row 1 is missing from the destination, and the row 2 should not be in it. -/
theorem pulls_agree_vips :
    let after := vips.pull vipSql [(1,true,20),(2,false,30),(3,false,95)] [1,2] [(2,true,30),(3,false,95)]
    after.2 = true ∧ (after.1.committed.map (·.1)).Perm [1,3] := by
  intro after
  have done : after.2 = true := by decide
  have filters : vipSql.Filters vips fun row => some (row.2.1 || decide (row.2.2 > 90)) :=
    vipSql_condition.2.1
  have agrees : vips.AgreesOutside vipSql [1,2] (fun row => some (row.2.1 || decide (row.2.2 > 90)))
      [(1,true,20),(2,false,30),(3,false,95)] [(2,true,30),(3,false,95)] := by
    simp [PullTexts.AgreesOutside,Sql.holds,vipSql_listed]
  exact ⟨done,((PullTexts.pulls_agree vipSql_standard filters agrees).1 done).1⟩

end Call45Aggr
