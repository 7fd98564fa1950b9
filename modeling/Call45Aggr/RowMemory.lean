import Call45Aggr.DataVoipRecordReport

/-! The memory of the local `DataVoipRecord` that reaches its row. -/
namespace Call45Aggr
open Library

namespace DataVoipRecord

/-- The text around the two numbers that come from unset memory. -/
theorem dump_with (r : DataVoipRecord) (supplement account : Int) :
    dump {r with supplementServiceId := supplement, accountId2 := account} =
      Sql.tuple (.number r.telcoId :: ((r.literals.take 25).tail ++ .number supplement ::
        ((r.literals.drop 26).take 8 ++ .number account :: r.literals.drop 35))) := rfl

/-- Rows that differ in the two numbers only are written differently. -/
theorem dump_inj_iff (r : DataVoipRecord) (supplement supplement' account account' : Int) :
    dump {r with supplementServiceId := supplement, accountId2 := account} =
        dump {r with supplementServiceId := supplement', accountId2 := account'} ↔
      supplement = supplement' ∧ account = account' := by
  rw [dump_with,dump_with,Sql.tuple_cons_inj,Sql.tail_append_inj,Sql.tail_number_inj,
    Sql.tail_append_inj,Sql.tail_number_inj]
  simp

end DataVoipRecord

namespace DataVoipRecordReport

theorem foldl_addCalled_fst (legs : List CallLeg) (number : String) (account account' : Int) :
    (legs.foldl addCalled (number,account)).1 = (legs.foldl addCalled (number,account')).1 := by
  induction legs generalizing number account account' with
  | nil => rfl
  | cons leg legs ih => exact ih _ _ _

/-- `account_id_2` from the memory it is read in: the first account of a leg of `b` where that is
zero. -/
theorem foldl_addCalled_snd (legs : List CallLeg) (called : String × Int) :
    (legs.foldl addCalled called).2 =
      if called.2 ≠ 0 then called.2 else ((legs.map CallLeg.accountId).find? (· ≠ 0)).getD 0 := by
  induction legs generalizing called with
  | nil => by_cases zero : called.2 = 0 <;> simp [zero]
  | cons leg legs ih =>
    rw [List.foldl_cons,ih]
    by_cases zero : called.2 = 0 <;> by_cases none : leg.accountId = 0 <;> simp [addCalled,zero,none]

/-- `account_id_2` in the row. -/
def accountId2 (u : DataVoipRecord.Unset) (record : Assembled) : Int :=
  if u.accountId2 ≠ 0 then u.accountId2
  else ((record.b.map CallLeg.accountId).find? (· ≠ 0)).getD 0

theorem build_memory (env : Env) (u : DataVoipRecord.Unset) (record : Assembled) :
    (build env u record).2 = {(build env {} record).2 with
      supplementServiceId := u.supplementServiceId, accountId2 := accountId2 u record} := by
  have legs : (scanLinks record).1.b = record.b := by
    have scanned : Scanned record (scanLinks record).1 record.links := scans record.links record _
    rw [scanned.rest]
  have called := foldl_addCalled_fst record.b "" u.accountId2 0
  have account := foldl_addCalled_snd record.b ("",u.accountId2)
  simp only [build,legs,called,account]
  rfl

/-- Two contents of the unset memory give the same text just where they hold the same
`supplement_service_id` and lead to the same `account_id_2`. -/
theorem build_dump_iff (env : Env) (u v : DataVoipRecord.Unset) (record : Assembled) :
    (build env u record).2.dump = (build env v record).2.dump ↔
      u.supplementServiceId = v.supplementServiceId ∧ accountId2 u record = accountId2 v record := by
  rw [build_memory env u,build_memory env v]
  exact DataVoipRecord.dump_inj_iff _ _ _ _ _

/-- No row depends on its call alone. -/
theorem text_never_determined (env : Env) (record : Assembled) :
    ¬∀ u v : DataVoipRecord.Unset, (build env u record).2.dump = (build env v record).2.dump := by
  intro determined
  have same := (build_dump_iff env ⟨0,0⟩ ⟨1,0⟩ record).mp (determined _ _)
  exact absurd same.1 (by decide)

/-- A call of one leg. -/
def oneLeg : Assembled :=
  {CallRecord.ofLeg (.row "1.1" true "2026-01-01 00:00:00") 1767225600 with
    a := .row "1.1" true "2026-01-01 00:00:00", b := []}

theorem supplement_printed : (build {} ⟨0,0⟩ oneLeg).2.dump ≠ (build {} ⟨1,0⟩ oneLeg).2.dump := by
  intro same
  exact absurd ((build_dump_iff {} ⟨0,0⟩ ⟨1,0⟩ oneLeg).mp same).1 (by decide)

end DataVoipRecordReport
end Call45Aggr
