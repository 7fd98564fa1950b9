import Call45Aggr.Library.Ledger
import Call45Aggr.ResultCursor
import Call45Aggr.Sessions
import Call45Aggr.TableCopy

/-! The results of libpq: `BDb` clears them on its own paths, in a copy with a `PGresultPtr`, or
leaves them to a `BDbResult`. -/
namespace Call45Aggr.Sessions
open Library
open NumberParsing (cString strtol)

structure PGresult where
  id : Nat
  reply : Reply
  deriving DecidableEq

/-- The server, and the failed answers that find no memory for a result. -/
structure Libpq extends Server where
  lost : Nat → Bool

/-- `PQresultStatus`: a null result is a fatal error. -/
def resultStatus (res : Option PGresult) : ExecStatus := res.elim .failed (·.reply.status)

def resultIds (res : Option PGresult) : List Nat := (res.map (·.id)).toList

@[simp] theorem resultIds_none : resultIds none = [] := rfl

@[simp] theorem resultIds_some (res : PGresult) : resultIds (some res) = [res.id] := rfl

/-- `PQclear` does nothing to a null result. -/
def pqClear (results : Ledger) : Option PGresult → Ledger
  | some res => results.release res.id
  | none => results

theorem accounts_pqClear {results : Ledger} {res : Option PGresult} {held : List Nat}
    (accounts : results.Accounts (resultIds res ++ held)) : (pqClear results res).Accounts held := by
  cases res with
  | none => exact accounts
  | some res => exact Ledger.Accounts.release accounts

/-- A result that is held has `count` rows. -/
structure BDbResult where
  res : Option PGresult
  count : Nat
  index : Int := -1
  sized : ∀ held ∈ res, count = held.reply.size

namespace BDbResult

def make (res : PGresult) : BDbResult where
  res := some res
  count := res.reply.size
  sized held same := by rw [Option.mem_some.mp same]

/-- What a move leaves behind. -/
def empty : BDbResult where
  res := none
  count := 0
  sized held member := absurd member (Option.not_mem_none held)

def forceFree (result : BDbResult) : BDbResult where
  res := none
  count := result.count
  index := result.index
  sized held member := absurd member (Option.not_mem_none held)

def ids (result : BDbResult) : List Nat := resultIds result.res

def cursor (result : BDbResult) : ResultCursor.BDbResult Unit where
  res := List.replicate result.count ()
  index := result.index

def moved (result : BDbResult) (call : ResultCursor.Call) : Option BDbResult :=
  (result.cursor.step call).map fun cursor => {result with index := cursor.index}

end BDbResult

/-- A connection and all results that libpq has handed out, here or elsewhere. -/
structure Driver where
  db : BDb
  results : Ledger

namespace Driver
variable (libpq : Libpq)

/-- `PQexec` and `PQexecParams` -/
def pqExec (d : Driver) (statement : String) (parameters : List QueryParameter := []) : Driver × Option PGresult :=
  match d.db.conn with
  | none => (d,none)
  | some _ =>
    match d.db.send libpq.toServer statement parameters with
    | (db,reply) =>
      if reply.status = .failed ∧ libpq.lost d.db.sent.length = true then ({d with db},none)
      else ({db,results := d.results.acquire},some ⟨d.results.created,reply⟩)

def clear (d : Driver) (res : Option PGresult) : Driver := {d with results := pqClear d.results res}

def disconnect (d : Driver) : Driver := {d with db := d.db.disconnect}

def setTimeZone (d : Driver) : Driver × Except Thrown Unit :=
  match d.pqExec libpq BDb.timeZone with
  | (d,res) =>
    if resultStatus res = .commandOk then (d.clear res,.ok ())
    else ((d.clear res).disconnect,.error .dbException)

def tryAdvisoryLock (d : Driver) : Driver × Except Thrown Unit :=
  if d.db.needAdvisoryLock = 0 then (d,.ok ())
  else
    match d.pqExec libpq (BDb.lockQuery d.db.needAdvisoryLock) with
    | (d,res) =>
      if resultStatus res ≠ .tuplesOk then ((d.clear res).disconnect,.error .dbException)
      else if res.any fun res => BDb.locked res.reply then (d.clear res,.ok ())
      else ((d.clear res).disconnect,.error .exception)

def connect (d : Driver) : Driver × Except Thrown Unit :=
  if d.db.connected then (d,.ok ())
  else if libpq.accepts d.db.sessions.length then
    match tryAdvisoryLock libpq {d with db := d.db.opening} with
    | (d,.ok ()) => d.setTimeZone libpq
    | failure => failure
  else (disconnect {d with db := d.db.opening},.error .dbException)

def attempts {ρ : Type} (attempt : Driver → Driver × Except Thrown ρ) : Nat → Driver → Driver × Except Thrown ρ
  | 0, d => (d,.error .dbException)
  | count + 1, d =>
    match attempt d with
    | (d,.error .dbException) => attempts attempt count d
    | other => other

def queryTry (squery : String) (d : Driver) : Driver × Except Thrown BDbResult :=
  match d.connect libpq with
  | (d,.error thrown) => (d,.error thrown)
  | (d,.ok ()) =>
    match d.pqExec libpq squery with
    | (d,res) =>
      if resultStatus res ≠ .tuplesOk then ((d.clear res).disconnect,.error .dbException)
      else
        match res with
        | some res => (d,.ok (.make res))
        | none => (d.disconnect,.error .dbException)

def query (d : Driver) (squery : String) : Driver × Except Thrown BDbResult :=
  attempts (queryTry libpq squery) d.db.attemptsCount d

/-- The handle ends with the function. -/
def ping (d : Driver) : Driver × Bool :=
  match d.query libpq "SELECT 9 as result" with
  | (d,.ok res) =>
    (d.clear res.res,res.count = 1 && res.res.any fun res => toInt32 (strtol (cString res.reply.value)).1 = 9)
  | (d,.error _) => (d,false)

def recover (d : Driver) : Driver :=
  match d.ping libpq with
  | (d,true) => d
  | (d,false) => d.disconnect

def execTry (squery : String) (d : Driver) : Driver × Except Thrown Unit :=
  match d.connect libpq with
  | (d,.error thrown) => (d,.error thrown)
  | (d,.ok ()) =>
    match d.pqExec libpq squery with
    | (d,res) =>
      if resultStatus res ≠ .commandOk then ((d.clear res).recover libpq,.error .dbException)
      else (d.clear res,.ok ())

def exec (d : Driver) (squery : String) : Driver × Except Thrown Unit :=
  attempts (execTry libpq squery) d.db.attemptsCount d

def sendParams (q : ParamQuery) (row : List QueryParameter) (d : Driver) : Driver × Except Thrown (Option PGresult) :=
  match d.pqExec libpq q.query row with
  | (d,res) =>
    if (resultStatus res).succeeded then (d,.ok res) else ((d.clear res).recover libpq,.error .dbException)

def execRows (q : ParamQuery) : List Nat → Driver → Driver × Except Thrown Unit
  | [], d => (d,.ok ())
  | rowIdx :: rest, d =>
    if q.isEmpty rowIdx then execRows q rest d
    else
      match q.parameters rowIdx with
      | some (.ok row) =>
        match sendParams libpq q (row.getD []) d with
        | (d,.ok res) => execRows q rest (d.clear res)
        | (d,.error thrown) => (d,.error thrown)
      | some (.error _) => (d,.error .runtimeError)
      | none => (d,.error .undefined)

def execParams (d : Driver) (q : ParamQuery) : Driver × Except Thrown Unit :=
  match d.connect libpq with
  | (d,.error thrown) => (d,.error thrown)
  | (d,.ok ()) => execRows libpq q (List.range q.levelsCount) d

def queryParams (d : Driver) (q : ParamQuery) : Driver × Except Thrown BDbResult :=
  match d.connect libpq with
  | (d,.error thrown) => (d,.error thrown)
  | (d,.ok ()) =>
    match q.parameters 0 with
    | some (.ok row) =>
      match sendParams libpq q (row.getD []) d with
      | (d,.ok (some res)) => (d,.ok (.make res))
      | (d,.ok none) => (d,.error .dbException)
      | (d,.error thrown) => (d,.error thrown)
    | some (.error _) => (d,.error .runtimeError)
    | none => (d,.error .undefined)

/-- The handle that the call returns, if it returns one. -/
def call (d : Driver) : BDb.Call → Driver × Option BDbResult
  | .needAdvisoryLock key => ({d with db.needAdvisoryLock := key},none)
  | .connect => ((d.connect libpq).1,none)
  | .disconnect => (d.disconnect,none)
  | .exec squery => ((d.exec libpq squery).1,none)
  | .query squery => ((d.query libpq squery).1,(d.query libpq squery).2.toOption)
  | .execParams query => ((d.execParams libpq query).1,none)
  | .queryParams query => ((d.queryParams libpq query).1,(d.queryParams libpq query).2.toOption)
  | .ping => ((d.ping libpq).1,none)

/-- What the call did is what `BDb` does in the model of its sessions, and of the results
handed out in it only `kept` are still held. -/
inductive Mirrors {ρ σ : Type} (d : Driver) (stands : ρ → σ → Prop) (kept : ρ → List Nat) :
    Driver × Except Thrown ρ → BDb × Except Thrown σ → Prop
  | returned (next : Driver) (value : ρ) (answer : σ) (answered : stands value answer)
      (settled : d.results.Settled next.results (kept value)) :
      Mirrors d stands kept (next,.ok value) (next.db,.ok answer)
  | threw (next : Driver) (thrown : Thrown) (settled : d.results.Settled next.results []) :
      Mirrors d stands kept (next,.error thrown) (next.db,.error thrown)

/-- Nothing is returned, and nothing is held. -/
abbrev Settles (d : Driver) : Driver × Except Thrown Unit → BDb × Except Thrown Unit → Prop :=
  Mirrors d Eq fun _ => []

def Stands (res : Option PGresult) (reply : Reply) : Prop := res.map (·.reply) = some reply

theorem pqExec_sent (d : Driver) (statement : String) (parameters : List QueryParameter) : ∃ next res reply,
    d.pqExec libpq statement parameters = (next,res) ∧
      d.db.send libpq.toServer statement parameters = (next.db,reply) ∧ resultStatus res = reply.status ∧
      (∀ held ∈ res, held.reply = reply) ∧ d.results.Settled next.results (resultIds res) := by
  rw [pqExec]
  cases conn : d.db.conn with
  | none =>
    refine ⟨d,none,_,rfl,by rw [BDb.send,conn],rfl,?_,.refl _⟩
    exact fun held member => absurd member (Option.not_mem_none held)
  | some session =>
    obtain ⟨entry,-,-,-,sent⟩ := @BDb.send_live libpq.toServer _ _ conn statement parameters
    rw [sent]
    dsimp only
    split
    next failed =>
      refine ⟨_,_,_,rfl,rfl,failed.1.symm,?_,.refl _⟩
      exact fun held member => absurd member (Option.not_mem_none held)
    next =>
      refine ⟨_,_,_,rfl,rfl,rfl,?_,d.results.settled_acquire⟩
      intro held member
      cases Option.mem_some.mp member
      rfl

theorem settled_clear {results : Ledger} {d : Driver} {res : Option PGresult}
    (settled : results.Settled d.results (resultIds res)) : results.Settled (d.clear res).results [] :=
  fun held accounts => accounts_pqClear (settled held accounts)

theorem setTimeZone_settles (d : Driver) : d.Settles (d.setTimeZone libpq) (d.db.setTimeZone libpq.toServer) := by
  obtain ⟨next,res,reply,ran,sent,status,-,settled⟩ := d.pqExec_sent libpq BDb.timeZone []
  rw [setTimeZone,BDb.setTimeZone,ran,sent]
  dsimp only
  rw [status]
  split
  · exact .returned _ () () rfl (settled_clear settled)
  · exact .threw _ _ (settled_clear settled)

theorem tryAdvisoryLock_settles (d : Driver) :
    d.Settles (d.tryAdvisoryLock libpq) (d.db.tryAdvisoryLock libpq.toServer) := by
  rw [tryAdvisoryLock,BDb.tryAdvisoryLock]
  split
  · exact .returned d () () rfl (.refl _)
  obtain ⟨next,res,reply,ran,sent,status,held,settled⟩ :=
    d.pqExec_sent libpq (BDb.lockQuery d.db.needAdvisoryLock) []
  rw [ran,sent]
  dsimp only
  rw [status]
  split
  · exact .threw _ _ (settled_clear settled)
  next answered =>
    cases res with
    | none => exact absurd (status.trans (not_not.mp answered)) (by decide)
    | some res =>
      obtain rfl := held res rfl
      rw [Option.any_some]
      split
      · exact .returned _ () () rfl (settled_clear settled)
      · exact .threw _ _ (settled_clear settled)

theorem Mirrors.after {ρ σ : Type} {d next : Driver} {stands : ρ → σ → Prop} {kept : ρ → List Nat}
    {outcome : Driver × Except Thrown ρ} {plain : BDb × Except Thrown σ}
    (before : d.results.Settled next.results []) (mirrors : next.Mirrors stands kept outcome plain) :
    d.Mirrors stands kept outcome plain := by
  cases mirrors with
  | returned last value answer answered settled => exact .returned last value answer answered (before.trans settled)
  | threw last thrown settled => exact .threw last thrown (before.trans settled)

theorem connect_settles (d : Driver) : d.Settles (d.connect libpq) (d.db.connect libpq.toServer) := by
  rw [connect,BDb.connect]
  split
  · exact .returned d () () rfl (.refl _)
  split
  · have locking := tryAdvisoryLock_settles libpq {d with db := d.db.opening}
    generalize tryAdvisoryLock libpq {d with db := d.db.opening} = outcome at locking ⊢
    generalize BDb.tryAdvisoryLock libpq.toServer d.db.opening = plain at locking ⊢
    cases locking with
    | returned next value answer _ settled => exact (setTimeZone_settles libpq next).after settled
    | threw next thrown settled => exact .threw next thrown settled
  · exact .threw _ _ (.refl _)

theorem attempts_mirrors {ρ σ : Type} {stands : ρ → σ → Prop} {kept : ρ → List Nat}
    {attempt : Driver → Driver × Except Thrown ρ} {plain : BDb → BDb × Except Thrown σ}
    (once : ∀ d : Driver, d.Mirrors stands kept (attempt d) (plain d.db)) (count : Nat) (d : Driver) :
    d.Mirrors stands kept (attempts attempt count d) (BDb.attempts plain count d.db) := by
  induction count generalizing d with
  | zero => exact .threw d _ (.refl _)
  | succ count ih =>
    have tried := once d
    rw [attempts,BDb.attempts]
    generalize attempt d = outcome at tried ⊢
    generalize plain d.db = answer at tried ⊢
    cases tried with
    | returned next value answer answered settled => exact .returned next value answer answered settled
    | threw next thrown settled =>
      cases thrown with
      | dbException => exact (ih next).after settled
      | exception => exact .threw next _ settled
      | runtimeError => exact .threw next _ settled
      | logicError => exact .threw next _ settled
      | undefined => exact .threw next _ settled

/-- The handle that a query returns stands for the answer, and holds its result. -/
abbrev Hands (d : Driver) : Driver × Except Thrown BDbResult → BDb × Except Thrown Reply → Prop :=
  Mirrors d (fun result => Stands result.res) BDbResult.ids

theorem queryTry_hands (squery : String) (d : Driver) :
    d.Hands (queryTry libpq squery d) (BDb.queryTry libpq.toServer squery d.db) := by
  have opened := connect_settles libpq d
  rw [queryTry,BDb.queryTry]
  generalize connect libpq d = outcome at opened ⊢
  generalize BDb.connect libpq.toServer d.db = plain at opened ⊢
  cases opened with
  | threw next thrown settled => exact .threw next thrown settled
  | returned next value answer _ settled =>
    obtain ⟨last,res,reply,ran,sent,status,held,executed⟩ := next.pqExec_sent libpq squery []
    dsimp only
    rw [ran,sent]
    dsimp only
    rw [status]
    by_cases answered : reply.status = .tuplesOk
    · rw [if_neg (not_not_intro answered),if_pos answered]
      cases res with
      | none => exact absurd (status.trans answered) (by decide)
      | some res =>
        obtain rfl := held res rfl
        exact .returned last (BDbResult.make res) _ rfl (settled.trans executed)
    · rw [if_pos answered,if_neg answered]
      exact .threw _ _ (settled.trans (settled_clear executed))

theorem query_hands (d : Driver) (squery : String) :
    d.Hands (d.query libpq squery) (d.db.query libpq.toServer squery) :=
  attempts_mirrors (queryTry_hands libpq squery) _ d

theorem ping_settles (d : Driver) : ∃ next answer, d.ping libpq = (next,answer) ∧
    d.db.ping libpq.toServer = (next.db,answer) ∧ d.results.Settled next.results [] := by
  have asked := query_hands libpq d "SELECT 9 as result"
  rw [ping,BDb.ping]
  generalize d.query libpq "SELECT 9 as result" = outcome at asked ⊢
  generalize d.db.query libpq.toServer "SELECT 9 as result" = plain at asked ⊢
  cases asked with
  | threw next thrown settled => exact ⟨next,false,rfl,rfl,settled⟩
  | returned next value answer answered settled =>
    refine ⟨_,_,rfl,?_,settled_clear settled⟩
    obtain ⟨res,holds,same⟩ := Option.map_eq_some_iff.mp answered
    have size := value.sized res holds
    subst same
    refine Prod.ext rfl ?_
    rw [Bool.eq_iff_iff]
    simp [holds,size]

theorem recover_settles (d : Driver) : ∃ next, d.recover libpq = next ∧ d.db.recover libpq.toServer = next.db ∧
    d.results.Settled next.results [] := by
  obtain ⟨next,answer,ran,pinged,settled⟩ := ping_settles libpq d
  rw [recover,BDb.recover,ran,pinged]
  cases answer with
  | true => exact ⟨next,rfl,rfl,settled⟩
  | false => exact ⟨next.disconnect,rfl,rfl,settled⟩

theorem execTry_settles (squery : String) (d : Driver) :
    d.Settles (execTry libpq squery d) (BDb.execTry libpq.toServer squery d.db) := by
  have opened := connect_settles libpq d
  rw [execTry,BDb.execTry]
  generalize connect libpq d = outcome at opened ⊢
  generalize BDb.connect libpq.toServer d.db = plain at opened ⊢
  cases opened with
  | threw next thrown settled => exact .threw next thrown settled
  | returned next value answer _ settled =>
    obtain ⟨last,res,reply,ran,sent,status,-,executed⟩ := next.pqExec_sent libpq squery []
    dsimp only
    rw [ran,sent]
    dsimp only
    rw [status]
    have cleared := settled.trans (settled_clear executed)
    by_cases done : reply.status = .commandOk
    · rw [if_neg (not_not_intro done),if_pos done]
      exact .returned _ () () rfl cleared
    · rw [if_pos done,if_neg done]
      obtain ⟨after,recovered,plain,tidied⟩ := recover_settles libpq (last.clear res)
      rw [recovered,show last.db.recover libpq.toServer = after.db from plain]
      exact .threw _ _ (cleared.trans tidied)

theorem exec_settles (d : Driver) (squery : String) : d.Settles (d.exec libpq squery) (d.db.exec libpq.toServer squery) :=
  attempts_mirrors (execTry_settles libpq squery) _ d

theorem sendParams_mirrors (q : ParamQuery) (row : List QueryParameter) (d : Driver) :
    d.Mirrors Stands resultIds (sendParams libpq q row d) (BDb.sendParams libpq.toServer q row d.db) := by
  obtain ⟨next,res,reply,ran,sent,status,held,settled⟩ := d.pqExec_sent libpq q.query row
  rw [sendParams,BDb.sendParams,ran,sent]
  dsimp only
  rw [status]
  split
  next done =>
    cases res with
    | none =>
      rw [← status] at done
      exact absurd done Bool.false_ne_true
    | some res =>
      obtain rfl := held res rfl
      exact .returned next (some res) _ rfl settled
  next =>
    obtain ⟨after,recovered,plain,tidied⟩ := recover_settles libpq (next.clear res)
    rw [recovered,show next.db.recover libpq.toServer = after.db from plain]
    exact .threw _ _ ((settled_clear settled).trans tidied)

theorem execRows_settles (q : ParamQuery) (rows : List Nat) (d : Driver) :
    d.Settles (execRows libpq q rows d) (BDb.execRows libpq.toServer q rows d.db) := by
  induction rows generalizing d with
  | nil => exact .returned d () () rfl (.refl _)
  | cons rowIdx rest ih =>
    rw [execRows,BDb.execRows]
    split
    · exact ih d
    cases found : q.parameters rowIdx with
    | none => exact .threw d _ (.refl _)
    | some parameters =>
      cases parameters with
      | error thrown => exact .threw d _ (.refl _)
      | ok row =>
        have sending := sendParams_mirrors libpq q (row.getD []) d
        dsimp only
        generalize sendParams libpq q (row.getD []) d = outcome at sending ⊢
        generalize BDb.sendParams libpq.toServer q (row.getD []) d.db = plain at sending ⊢
        cases sending with
        | returned next value answer _ settled => exact (ih (next.clear value)).after (settled_clear settled)
        | threw next thrown settled => exact .threw next thrown settled

theorem execParams_settles (d : Driver) (q : ParamQuery) :
    d.Settles (d.execParams libpq q) (d.db.execParams libpq.toServer q) := by
  have opened := connect_settles libpq d
  rw [execParams,BDb.execParams]
  generalize connect libpq d = outcome at opened ⊢
  generalize BDb.connect libpq.toServer d.db = plain at opened ⊢
  cases opened with
  | returned next value answer _ settled => exact (execRows_settles libpq q _ next).after settled
  | threw next thrown settled => exact .threw next thrown settled

theorem queryParams_hands (d : Driver) (q : ParamQuery) :
    d.Hands (d.queryParams libpq q) (d.db.queryParams libpq.toServer q) := by
  have opened := connect_settles libpq d
  rw [queryParams,BDb.queryParams]
  generalize connect libpq d = outcome at opened ⊢
  generalize BDb.connect libpq.toServer d.db = plain at opened ⊢
  cases opened with
  | threw next thrown settled => exact .threw next thrown settled
  | returned next value answer _ settled =>
    dsimp only
    cases found : q.parameters 0 with
    | none => exact .threw next _ settled
    | some parameters =>
      cases parameters with
      | error thrown => exact .threw next _ settled
      | ok row =>
        have sending := sendParams_mirrors libpq q (row.getD []) next
        dsimp only
        generalize sendParams libpq q (row.getD []) next = outcome at sending ⊢
        generalize BDb.sendParams libpq.toServer q (row.getD []) next.db = plain at sending ⊢
        cases sending with
        | threw last thrown sent => exact .threw last thrown (settled.trans sent)
        | returned last res answer answered sent =>
          obtain ⟨held,rfl,rfl⟩ := Option.map_eq_some_iff.mp answered
          exact .returned last (BDbResult.make held) _ rfl (settled.trans sent)

theorem Mirrors.settles {d : Driver} {outcome : Driver × Except Thrown Unit} {plain : BDb × Except Thrown Unit}
    (mirrors : d.Settles outcome plain) : outcome.1.db = plain.1 ∧ d.results.Settled outcome.1.results [] := by
  cases mirrors with
  | returned next value answer answered settled => exact ⟨rfl,settled⟩
  | threw next thrown settled => exact ⟨rfl,settled⟩

theorem Mirrors.hands {d : Driver} {outcome : Driver × Except Thrown BDbResult} {plain : BDb × Except Thrown Reply}
    (mirrors : d.Hands outcome plain) : outcome.1.db = plain.1 ∧
      d.results.Settled outcome.1.results (outcome.2.toOption.toList.flatMap BDbResult.ids) ∧
      ∀ result ∈ outcome.2.toOption, result.res ≠ none := by
  cases mirrors with
  | returned next value answer answered settled =>
    refine ⟨rfl,by simpa [Except.toOption] using settled,?_⟩
    intro result member none
    cases Option.mem_some.mp member
    rw [Stands,none] at answered
    exact absurd answered (by simp)
  | threw next thrown settled => exact ⟨rfl,settled,fun result member => absurd member (Option.not_mem_none result)⟩

theorem call_mirrors (d : Driver) (call : BDb.Call) : (d.call libpq call).1.db = d.db.call libpq.toServer call ∧
    d.results.Settled (d.call libpq call).1.results ((d.call libpq call).2.toList.flatMap BDbResult.ids) ∧
    ∀ result ∈ (d.call libpq call).2, result.res ≠ none := by
  have without {outcome : Driver × Except Thrown Unit} {plain : BDb × Except Thrown Unit}
      (mirrors : d.Settles outcome plain) : outcome.1.db = plain.1 ∧ d.results.Settled outcome.1.results [] ∧
        ∀ result ∈ (none : Option BDbResult), result.res ≠ none :=
    ⟨mirrors.settles.1,mirrors.settles.2,fun result member => absurd member (Option.not_mem_none result)⟩
  cases call with
  | needAdvisoryLock key => exact without (.returned {d with db.needAdvisoryLock := key} () () rfl (.refl _))
  | connect => exact without (connect_settles libpq d)
  | disconnect => exact without (.returned d.disconnect () () rfl (.refl _))
  | exec squery => exact without (exec_settles libpq d squery)
  | query squery => exact (query_hands libpq d squery).hands
  | execParams query => exact without (execParams_settles libpq d query)
  | queryParams query => exact (queryParams_hands libpq d query).hands
  | ping =>
    obtain ⟨next,answer,ran,pinged,settled⟩ := ping_settles libpq d
    rw [Driver.call,BDb.call,ran,pinged]
    exact without (.returned next () () rfl settled)

end Driver

/-- The peers of a copy, and which of their failed answers find no memory for a result. -/
structure CopyLibpq extends Peers where
  sourceLost : Nat → Bool
  destinationLost : Nat → Bool
  sourceEndLost : Bool := false
  destinationEndLost : Bool := false

namespace CopyLibpq
variable (peers : CopyLibpq) (tables : CopyTables)

def readLibpq : Libpq := ⟨peers.source,peers.sourceLost⟩

def writeLibpq : Libpq := ⟨peers.destination,peers.destinationLost⟩

/-- The same course of a copy between two other servers. -/
def between (source destination : Libpq) : CopyLibpq :=
  {peers with
    source := source.toServer
    destination := destination.toServer
    sourceLost := source.lost
    destinationLost := destination.lost}

/-- `PGresultPtr{PQgetResult(conn)}.status()`: the pointer ends with the expression and clears
the result. -/
def getResult (lost : Bool) (status : ExecStatus) (results : Ledger) : Ledger × ExecStatus :=
  if status = .failed ∧ lost = true then (results,.failed)
  else (pqClear results.acquire (some ⟨results.created,{status}⟩),status)

/-- `copy_ex` once both servers have answered its queries. -/
def stream (results : Ledger) : Streamed × Ledger :=
  match Transfer.report peers.toPeers {} 0 with
  | (transfer,some thrown) => ({transfer,outcome := .error thrown},results)
  | (transfer,none) =>
    match transfer.loop peers.toPeers peers.buffers 0 with
    | (transfer,.error thrown) => ({transfer,outcome := .error thrown},results)
    | (transfer,.ok totalBytesRead) =>
      match getResult peers.sourceEndLost peers.sourceResult results with
      | (results,status) =>
        if status ≠ .commandOk ∨ peers.putsEnd = false then ({transfer,outcome := .error .dbException},results)
        else
          match getResult peers.destinationEndLost peers.destinationResult results with
          | (results,status) =>
            if status ≠ .commandOk then ({transfer,ended := true,outcome := .error .dbException},results)
            else ({transfer,ended := true,outcome := .ok totalBytesRead},results)

def transfer (dbSrc dbDst : BDb) (results : Ledger) : Copied × Ledger :=
  match (Driver.mk dbSrc results).pqExec peers.readLibpq tables.queryRead with
  | (source,res) =>
    let results := (source.clear res).results
    if resultStatus res ≠ .copyOut then
      ({source := source.db,destination := dbDst,outcome := .error .dbException},results)
    else
      match (Driver.mk dbDst results).pqExec peers.writeLibpq tables.queryWrite with
      | (destination,res) =>
        let results := (destination.clear res).results
        if resultStatus res ≠ .copyIn then
          ({source := source.db,destination := destination.db,outcome := .error .dbException},results)
        else
          let (streamed,results) := peers.stream results
          ({streamed with source := source.db,destination := destination.db},results)

def copyEx (dbSrc dbDst : BDb) (results : Ledger) : Copied × Ledger :=
  if tables.srcColumns = "" ∨ tables.dstColumns = "" then
    ({source := dbSrc,destination := dbDst,outcome := .error .logicError},results)
  else
    match (Driver.mk dbSrc results).connect peers.readLibpq with
    | (source,.error thrown) =>
      ({source := source.db,destination := dbDst,outcome := .error thrown},source.results)
    | (source,.ok ()) =>
      match (Driver.mk dbDst source.results).connect peers.writeLibpq with
      | (destination,.error thrown) =>
        ({source := source.db.leave dbSrc.connected,destination := destination.db,outcome := .error thrown},
          destination.results)
      | (destination,.ok ()) =>
        let (copied,results) := peers.transfer tables source.db destination.db destination.results
        ({copied with
          source := copied.source.leave dbSrc.connected
          destination := copied.destination.leave dbDst.connected},results)

variable {peers tables}

theorem getResult_settles (lost : Bool) (status : ExecStatus) (results : Ledger) : ∃ next,
    getResult lost status results = (next,status) ∧ results.Settled next [] := by
  rw [getResult]
  split
  next failed => exact ⟨results,by rw [failed.1],.refl _⟩
  next => exact ⟨_,rfl,results.settled_acquire.release⟩

theorem stream_settles (results : Ledger) : ∃ next,
    peers.stream results = (Sessions.stream peers.toPeers,next) ∧ results.Settled next [] := by
  rw [stream,Sessions.stream]
  obtain ⟨read,first,ended⟩ := getResult_settles peers.sourceEndLost peers.sourceResult results
  obtain ⟨written,second,closed⟩ := getResult_settles peers.destinationEndLost peers.destinationResult read
  generalize Transfer.report peers.toPeers {} 0 = began
  obtain ⟨transfer,thrown | _⟩ := began
  · dsimp only
    generalize transfer.loop peers.toPeers peers.buffers 0 = looped
    obtain ⟨transfer,thrown | totalBytesRead⟩ := looped
    · exact ⟨results,rfl,.refl _⟩
    dsimp only
    rw [first]
    dsimp only
    split
    · exact ⟨read,rfl,ended⟩
    rw [second]
    dsimp only
    split <;> exact ⟨written,rfl,ended.trans closed⟩
  · exact ⟨results,rfl,.refl _⟩

theorem transfer_settles (dbSrc dbDst : BDb) (results : Ledger) : ∃ next,
    peers.transfer tables dbSrc dbDst results = (dbSrc.transfer peers.toPeers tables dbDst,next) ∧
      results.Settled next [] := by
  obtain ⟨source,res,reply,ran,sent,status,-,read⟩ :=
    (Driver.mk dbSrc results).pqExec_sent peers.readLibpq tables.queryRead []
  have read := Driver.settled_clear read
  rw [transfer,BDb.transfer,ran,show dbSrc.send peers.source tables.queryRead = (source.db,reply) from sent]
  dsimp only
  rw [status]
  split
  · exact ⟨_,rfl,read⟩
  obtain ⟨destination,res,reply,ran,sent,status,-,written⟩ :=
    (Driver.mk dbDst (source.clear res).results).pqExec_sent peers.writeLibpq tables.queryWrite []
  have written := read.trans (Driver.settled_clear written)
  rw [ran,show dbDst.send peers.destination tables.queryWrite = (destination.db,reply) from sent]
  dsimp only
  rw [status]
  split
  · exact ⟨_,rfl,written⟩
  obtain ⟨next,streamed,settled⟩ := @stream_settles peers (destination.clear res).results
  rw [streamed]
  exact ⟨next,rfl,written.trans settled⟩

/-- A copy does what it does in the model without results, and holds none of them after it. -/
theorem copyEx_settles (dbSrc dbDst : BDb) (results : Ledger) : ∃ next,
    peers.copyEx tables dbSrc dbDst results = (dbSrc.copyEx peers.toPeers tables dbDst,next) ∧
      results.Settled next [] := by
  rw [copyEx,BDb.copyEx]
  split
  · exact ⟨results,rfl,.refl _⟩
  have reading := Driver.connect_settles peers.readLibpq ⟨dbSrc,results⟩
  generalize (Driver.mk dbSrc results).connect peers.readLibpq = outcome at reading ⊢
  change Driver.Settles _ _ (dbSrc.connect peers.source) at reading
  generalize dbSrc.connect peers.source = plain at reading ⊢
  cases reading with
  | threw source thrown settled => exact ⟨_,rfl,settled⟩
  | returned source value answer _ read =>
    have writing := Driver.connect_settles peers.writeLibpq ⟨dbDst,source.results⟩
    dsimp only
    generalize (Driver.mk dbDst source.results).connect peers.writeLibpq = outcome at writing ⊢
    change Driver.Settles _ _ (dbDst.connect peers.destination) at writing
    generalize dbDst.connect peers.destination = plain at writing ⊢
    cases writing with
    | threw destination thrown settled => exact ⟨_,rfl,read.trans settled⟩
    | returned destination value answer _ written =>
      obtain ⟨next,moved,settled⟩ := @transfer_settles peers tables source.db destination.db destination.results
      dsimp only
      rw [moved]
      exact ⟨next,rfl,(read.trans written).trans settled⟩

end CopyLibpq

end Call45Aggr.Sessions
