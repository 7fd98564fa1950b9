import Call45Aggr.Database

/-! `Puller::pull`: a table is cleared and copied anew inside a `BDbTransaction`, over a
connection whose `exec` reconnects and tries again. -/
namespace Call45Aggr

/-- An output connection as the pool gives it, with no transaction open. -/
inductive IdleConn
  | closed
  | dead
  | ready
  deriving DecidableEq

namespace Db
variable {δ : Type}

def start (content : δ) : IdleConn → Db δ
  | .closed => ⟨content,.closed,0⟩
  | .dead => ⟨content,.dead,0⟩
  | .ready => ⟨content,.live none,0⟩

def begin' : Statement δ := ⟨.begin,id⟩

def commit : Statement δ := ⟨.commit,id⟩

def rollback : Statement δ := ⟨.rollback,id⟩

end Db

structure TransactionFaults where
  begin' : Trial × Trial
  commit : Trial × Trial
  rollback : Trial × Trial

/-- The scope of a `BDbTransaction` whose body ends in `trans.commit()`; its destructor
rolls back what began and did not commit, and drops the exceptions of that. -/
def Db.transaction {δ : Type} (faults : TransactionFaults) (body : Db δ → Db δ × Bool)
    (db : Db δ) : Db δ × Bool :=
  match Db.exec Db.begin' faults.begin'.1 faults.begin'.2 db with
  | (db,.done) =>
    match body db with
    | (db,true) =>
      match Db.exec Db.commit faults.commit.1 faults.commit.2 db with
      | (db,.done) => (db,true)
      | (db,_) => ((Db.exec Db.rollback faults.rollback.1 faults.rollback.2 db).1,false)
    | (db,false) => ((Db.exec Db.rollback faults.rollback.1 faults.rollback.2 db).1,false)
  | (db,_) => (db,false)

/-- `statement` is the fate of the `COPY` on the destination: one that the source, the
delayer or the transfer breaks off is refused. -/
structure CopyFaults where
  sourceConnects : Bool
  sourceCopies : Bool
  connect : Connecting
  statement : Fate

/-- `BDb::copy_ex` after its source is connected, within a `BDConnectScope` of the
destination. -/
def Db.copyEx {δ : Type} (faults : CopyFaults) (effect : δ → δ) (db : Db δ) : Db δ × Bool :=
  if faults.sourceConnects then
    match db.connect faults.connect with
    | (opened,.ok) =>
      let (next,copied) :=
        if faults.sourceCopies then
          match opened.pqExec faults.statement ⟨.plain false,effect⟩ with
          | (next,.commandOk) => (next,true)
          | (next,_) => (next,false)
        else (opened,false)
      (if db.connected then next else next.disconnect,copied)
    | (unopened,_) => (unopened,false)
  else (db,false)

/-- `key` is absent where the source has an empty name for it. -/
structure Puller (σ ρ : Type) where
  key : Option ((σ → Int) × (ρ → Int))
  srcSqlWhere : σ → Bool
  fields : σ → ρ

structure PullFaults where
  transaction : TransactionFaults
  clear : Trial × Trial
  copy : CopyFaults

namespace Puller
variable {σ ρ : Type}

def isFullPullRequired (puller : Puller σ ρ) (ids : List Int) : Bool :=
  puller.key.isNone || ids.contains 0

/-- The condition on the rows of the source, and what is cleared of the destination. -/
def createUpdateQueries (puller : Puller σ ρ) (ids : List Int) :
    (σ → Bool) × (List ρ → List ρ) :=
  if puller.isFullPullRequired ids then (puller.srcSqlWhere,fun _ => [])
  else
    match puller.key with
    | none => (puller.srcSqlWhere,fun _ => [])
    | some (sourceKey,key) =>
      (fun row => puller.srcSqlWhere row && ids.contains (sourceKey row),
        fun rows => rows.filter fun row => !ids.contains (key row))

def clearQuery (puller : Puller σ ρ) (ids : List Int) : Statement (List ρ) :=
  ⟨.plain false,(puller.createUpdateQueries ids).2⟩

def copied (puller : Puller σ ρ) (source : List σ) (ids : List Int) (rows : List ρ) : List ρ :=
  rows ++ (source.filter (puller.createUpdateQueries ids).1).map puller.fields

def pulled (puller : Puller σ ρ) (source : List σ) (ids : List Int) (before : List ρ) : List ρ :=
  puller.copied source ids ((puller.clearQuery ids).effect before)

def clearAndCopy (puller : Puller σ ρ) (source : List σ) (ids : List Int) (faults : PullFaults)
    (slaveDb : Db (List ρ)) : Db (List ρ) × Bool :=
  match Db.exec (puller.clearQuery ids) faults.clear.1 faults.clear.2 slaveDb with
  | (slaveDb,.done) => slaveDb.copyEx faults.copy (puller.copied source ids)
  | (slaveDb,_) => (slaveDb,false)

def pull (puller : Puller σ ρ) (source : List σ) (ids : List Int) (faults : PullFaults)
    (slaveDb : Db (List ρ)) : Db (List ρ) × Bool :=
  Db.transaction faults.transaction (puller.clearAndCopy source ids faults) slaveDb

/-- The table is as before or cleared and copied, and what `exec` sent inside the
transaction took no effect outside one. -/
def Survives (puller : Puller σ ρ) (source : List σ) (ids : List Int) (faults : PullFaults)
    (conn : IdleConn) (before : List ρ) : Prop :=
  let after := (puller.pull source ids faults (Db.start before conn)).1
  (after.committed = before ∨ after.committed = puller.pulled source ids before) ∧
    ∀ began, Db.exec Db.begin' faults.transaction.begin'.1 faults.transaction.begin'.2
        (Db.start before conn) = (began,.done) →
      (Db.exec (puller.clearQuery ids) faults.clear.1 faults.clear.2 began).1.direct = began.direct

end Puller

/-- The second try has a session to send `BEGIN` to. -/
def Restarts (conn : IdleConn) (first second : Trial) : Prop :=
  match conn with
  | .closed => False
  | .dead => first.ping.2.opens = true ∨ second.connect = .ok
  | .ready => first.statement = .refused ∧ first.ping.1.statement = .answered ∨
      first.ping.2.opens = true ∨ second.connect = .ok

/-- `BEGIN` is answered in the first try or the second. -/
def Begins (conn : IdleConn) (first second : Trial) : Prop :=
  (conn = .ready ∨ conn = .closed ∧ first.connect = .ok) ∧ first.statement = .answered ∨
    Restarts conn first second ∧ second.statement = .answered

/-- The first try of the clearing statement fails and ends the transaction, and the
second runs it on a new session, where no transaction is open. -/
def Reruns (clear : Trial × Trial) : Prop :=
  clear.1.statement ≠ .answered ∧ (clear.1.ping.2.opens = true ∨ clear.2.connect = .ok) ∧
    Executed clear.2

namespace Db
variable {δ : Type}

def began (db : Db δ) : Db δ := {db with conn := .live (some {work := db.committed})}

theorem execTry_begin_live {db : Db δ} (ready : db.conn = .live none) (trial : Trial) :
    execTry begin' db trial =
      if trial.statement = .answered then (db.began,.done)
      else ({db with conn := if trial.statement = .refused ∧ trial.ping.1.statement = .answered ∨
        trial.ping.2.opens = true then .live none else .closed},.caught) := by
  have connected : db.connected = true := by simp [Db.connected,ready]
  rw [execTry_connected connected]
  cases fate : trial.statement with
  | answered => simp [pqExec,ready,run,begin',began]
  | refused =>
    have refused : db.pqExec .refused begin' = (db,.error) := by
      simp only [pqExec,ready,refuse,begin',Option.map_none]
      rw [← ready]
    have unchanged : {db with conn := .live none} = db := by rw [← ready]
    simp only [refused,recover_eq db trial.ping connected,keeps,ready]
    by_cases kept : trial.ping.1.statement = .answered
    · simp [kept,unchanged]
    · simp [kept]
  | lostBefore =>
    have lost : db.pqExec .lostBefore begin' = ({db with conn := .dead},.error) := by simp [pqExec,ready]
    simp [lost,recover_eq {db with conn := .dead} trial.ping rfl,keeps]
  | lostAfter =>
    have lost : db.pqExec .lostAfter begin' = ({db with conn := .dead},.error) := by
      simp [pqExec,ready,run,begin']
    simp [lost,recover_eq {db with conn := .dead} trial.ping rfl,keeps]

def Untouched (db next : Db δ) : Prop :=
  next.committed = db.committed ∧ next.direct = db.direct

def Began (db : Db δ) (begins : Prop) (result : Db δ × Attempt) : Prop :=
  (begins → result = (db.began,.done)) ∧ (¬begins → result.2 ≠ .done ∧ db.Untouched result.1)

theorem recover_untouched {db next : Db δ} (connected : next.connected = true)
    {requests : Request × Request} (untouched : db.Untouched next) :
    db.Untouched (next.recover requests) := by
  rw [recover_eq next requests connected]
  split
  · exact untouched
  · exact untouched

theorem execTry_begin {db : Db δ} (idle : db.conn = .closed ∨ db.conn = .live none) (trial : Trial) :
    db.Began ((db.conn = .live none ∨ trial.connect = .ok) ∧ trial.statement = .answered)
      (execTry begin' db trial) := by
  by_cases opened : db.conn = .live none ∨ trial.connect = .ok
  · rw [execTry_opened idle opened,execTry_begin_live rfl]
    refine ⟨fun ⟨_,answered⟩ => by simp [answered,Db.began],?_⟩
    intro unanswered
    rw [if_neg fun answered => unanswered ⟨opened,answered⟩]
    exact ⟨by simp,rfl,rfl⟩
  · obtain ⟨same,failed⟩ := execTry_unopened idle opened begin'
    refine ⟨fun ⟨reaches,_⟩ => absurd reaches opened,fun _ => ⟨failed,?_⟩⟩
    rw [same]
    exact ⟨rfl,rfl⟩

theorem exec_begin (content : δ) (conn : IdleConn) (first second : Trial) :
    (start content conn).Began (Begins conn first second)
      (exec begin' first second (start content conn)) := by
  cases conn with
  | closed =>
    rw [exec_unconnected rfl]
    simpa [Begins,Restarts,start] using execTry_begin (.inl rfl : (start content .closed).conn = .closed ∨ _) first
  | dead =>
    have failed : (start content .dead).pqExec first.statement begin' = (start content .dead,.error) := rfl
    rw [exec_connected rfl,failed,recover_eq _ _ rfl]
    cases opens : first.ping.2.opens with
    | true =>
      have again := @execTry_begin δ {start content .dead with conn := .live none} (.inr rfl) second
      simpa [Begins,Restarts,opens,keeps,start,Began,Db.began,Untouched] using again
    | false =>
      have again := @execTry_begin δ {start content .dead with conn := .closed} (.inl rfl) second
      simpa [Begins,Restarts,opens,keeps,start,Began,Db.began,Untouched] using again
  | ready =>
    have tried := @execTry_begin_live δ (start content .ready) rfl first
    by_cases answered : first.statement = .answered
    · simp [exec,retry,tried,answered,Began,Begins]
    · rw [if_neg answered] at tried
      by_cases survived : first.statement = .refused ∧ first.ping.1.statement = .answered ∨
          first.ping.2.opens = true
      · have again := @execTry_begin δ {start content .ready with conn := .live none} (.inr rfl) second
        rw [if_pos survived] at tried
        have restarts : Restarts .ready first second := by
          rw [Restarts,← or_assoc]
          exact .inl survived
        rw [exec_again rfl tried]
        simpa [Begins,answered,restarts,start,Began,Db.began,Untouched] using again
      · have again := @execTry_begin δ {start content .ready with conn := .closed} (.inl rfl) second
        rw [if_neg survived] at tried
        have restarts : Restarts .ready first second ↔ second.connect = .ok := by
          rw [Restarts,← or_assoc,or_iff_right survived]
        rw [exec_again rfl tried]
        simpa [Begins,answered,restarts,start,Began,Db.began,Untouched] using again

theorem execTry_plain {db : Db δ} (idle : db.conn = .closed ∨ db.conn = .live none) {q : Statement δ}
    (plain : q.kind = .plain false) (trial : Trial) :
    ((db.conn = .live none ∨ trial.connect = .ok) ∧ Executed trial ∧
        (execTry q db trial).1.direct = db.direct + 1) ∨
      ¬((db.conn = .live none ∨ trial.connect = .ok) ∧ Executed trial) ∧
        (execTry q db trial).2 ≠ .done ∧ db.Untouched (execTry q db trial).1 := by
  by_cases opened : db.conn = .live none ∨ trial.connect = .ok
  · rw [execTry_opened idle opened,execTry_connected rfl]
    obtain ⟨kind,effect⟩ := q
    obtain rfl : kind = .plain false := plain
    cases fate : trial.statement with
    | answered => simp [opened,Executed,fate,pqExec,run]
    | refused =>
      refine .inr ⟨by simp [Executed,fate],by simp [pqExec,refuse],?_⟩
      simp only [pqExec,refuse,Option.map_none,reduceCtorEq,if_false]
      exact recover_untouched rfl ⟨rfl,rfl⟩
    | lostBefore =>
      refine .inr ⟨by simp [Executed,fate],by simp [pqExec],?_⟩
      simp only [pqExec,reduceCtorEq,if_false]
      exact recover_untouched rfl ⟨rfl,rfl⟩
    | lostAfter =>
      refine .inl ⟨opened,.inr fate,?_⟩
      simp only [pqExec,run,reduceCtorEq,if_false]
      rw [recover_eq _ _ rfl]
      split <;> rfl
  · obtain ⟨same,failed⟩ := execTry_unopened idle opened q
    refine .inr ⟨fun sent => opened sent.1,failed,?_⟩
    rw [same]
    exact ⟨rfl,rfl⟩

theorem exec_clear (db : Db δ) {q : Statement δ} (plain : q.kind = .plain false) (first second : Trial) :
    first.statement = .answered ∧ exec q first second db.began =
        ({db with conn := .live (some {work := q.effect db.committed})},.done) ∨
      Reruns (first,second) ∧ (exec q first second db.began).1.direct = db.direct + 1 ∨
      ¬Reruns (first,second) ∧ (exec q first second db.began).2 ≠ .done ∧
        db.Untouched (exec q first second db.began).1 := by
  obtain ⟨kind,effect⟩ := q
  obtain rfl : kind = .plain false := plain
  by_cases answered : first.statement = .answered
  · refine .inl ⟨answered,?_⟩
    rw [exec_connected rfl,answered]
    simp [pqExec,Db.began,run]
  · refine .inr ?_
    -- The session is aborted or dead, so that only a new one can answer the ping.
    have failed : ∃ conn : Conn δ, (conn = .dead ∨ conn = .live (some ⟨db.committed,true⟩)) ∧
        db.began.pqExec first.statement ⟨.plain false,effect⟩ = ({db with conn := conn},.error) := by
      cases fate : first.statement with
      | answered => exact absurd fate answered
      | refused => exact ⟨_,.inr rfl,rfl⟩
      | lostBefore => exact ⟨_,.inl rfl,rfl⟩
      | lostAfter => exact ⟨_,.inl rfl,rfl⟩
    obtain ⟨conn,gone,failed⟩ := failed
    have connected : ({db with conn := conn} : Db δ).connected = true := by
      obtain rfl | rfl := gone <;> rfl
    have lost : ({db with conn := conn} : Db δ).keeps first.ping = false := by
      obtain rfl | rfl := gone <;> rfl
    rw [exec_connected rfl,failed,if_neg (by simp),recover_lost connected lost]
    let rest : Db δ := {db with conn := if first.ping.2.opens = true then .live none else .closed}
    have idle : rest.conn = .closed ∨ rest.conn = .live none := by
      cases opens : first.ping.2.opens <;> simp [rest,opens]
    have ready : rest.conn = .live none ↔ first.ping.2.opens = true := by
      cases opens : first.ping.2.opens <;> simp [rest,opens]
    have again := @execTry_plain δ rest idle ⟨.plain false,effect⟩ rfl second
    rw [ready] at again
    obtain ⟨opened,executed,direct⟩ | ⟨quiet,again⟩ := again
    · exact .inl ⟨⟨answered,opened,executed⟩,direct⟩
    · exact .inr ⟨fun reruns => quiet reruns.2,again⟩

theorem copyEx_inside (db : Db δ) (work : δ) (faults : CopyFaults) (effect : δ → δ) :
    let inside : Db δ := {db with conn := .live (some {work := work})}
    inside.copyEx faults effect = ({db with conn := .live (some {work := effect work})},true) ∨
      (inside.copyEx faults effect).2 = false ∧
        (inside.copyEx faults effect).1.committed = db.committed := by
  obtain ⟨sourceConnects,sourceCopies,connecting,fate⟩ := faults
  cases sourceConnects with
  | false => exact .inr ⟨rfl,rfl⟩
  | true =>
    cases sourceCopies with
    | false => exact .inr ⟨rfl,rfl⟩
    | true =>
      cases fate with
      | answered => exact .inl rfl
      | refused => exact .inr ⟨rfl,rfl⟩
      | lostBefore => exact .inr ⟨rfl,rfl⟩
      | lostAfter => exact .inr ⟨rfl,rfl⟩

theorem exec_rollback (db : Db δ) (first second : Trial) :
    (exec rollback first second db).1.committed = db.committed := by
  have sent : ∀ (next : Db δ) fate, next.committed = db.committed →
      (next.pqExec fate rollback).1.committed = db.committed := by
    intro next fate same
    cases shape : next.conn with
    | closed => simpa [pqExec,shape] using same
    | dead => simpa [pqExec,shape] using same
    | live tx => cases tx <;> cases fate <;> simpa [pqExec,shape,run,refuse,rollback] using same
  exact @exec_preserves δ (fun next => next.committed = db.committed) _ sent
    (fun _ kept => ⟨kept,kept⟩) db rfl first second

/-- However the commit fares, the transaction is committed as a whole or not at all. -/
theorem exec_commit (db : Db δ) (work : δ) (first second : Trial) :
    let inside : Db δ := {db with conn := .live (some {work := work})}
    (exec commit first second inside).1.committed = db.committed ∨
      (exec commit first second inside).1.committed = work := by
  intro inside
  let Kept (next : Db δ) : Prop := (next.committed = db.committed ∨ next.committed = work) ∧
    ∀ tx, next.conn = .live (some tx) → tx.aborted = false → tx.work = work
  have sent : ∀ next fate, Kept next → Kept (next.pqExec fate commit).1 := by
    intro next fate kept
    obtain ⟨committed,open'⟩ := kept
    cases shape : next.conn with
    | closed => simpa [Kept,pqExec,shape] using committed
    | dead => simpa [Kept,pqExec,shape] using committed
    | live tx =>
      cases tx with
      | none => cases fate <;> simpa [Kept,pqExec,shape,run,refuse,commit] using committed
      | some tx =>
        have whole := open' tx shape
        cases aborted : tx.aborted <;> cases fate <;>
          simp_all [Kept,pqExec,run,refuse,commit]
  have kept : Kept inside := by simp [Kept,inside]
  exact (exec_preserves sent (fun _ kept => by simp [Kept,kept.1]) kept first second).1

theorem transaction_whole {faults : TransactionFaults} (body : Db δ → Db δ × Bool) {db : Db δ}
    (work : δ) (began : exec begin' faults.begin'.1 faults.begin'.2 db = (db.began,.done))
    (whole : body db.began = ({db with conn := .live (some {work := work})},true) ∨
      (body db.began).2 = false ∧ (body db.began).1.committed = db.committed) :
    (transaction faults body db).1.committed = db.committed ∨
      (transaction faults body db).1.committed = work := by
  simp only [transaction,began]
  obtain inside | ⟨failed,kept⟩ := whole
  · rw [inside]
    dsimp only
    have ends := exec_commit db work faults.commit.1 faults.commit.2
    split
    next ended => simpa [ended] using ends
    next ended =>
      dsimp only
      rw [exec_rollback]
      simpa [ended] using ends
  · cases outcome : body db.began with
    | mk next copied =>
      rw [outcome] at failed kept
      dsimp only at failed kept
      subst failed
      dsimp only
      rw [exec_rollback,kept]
      exact .inl rfl

theorem transaction_unbegun {faults : TransactionFaults} (body : Db δ → Db δ × Bool) {db : Db δ}
    (failed : (exec begin' faults.begin'.1 faults.begin'.2 db).2 ≠ .done) :
    transaction faults body db = ((exec begin' faults.begin'.1 faults.begin'.2 db).1,false) := by
  unfold transaction
  split
  next next done => simp [done] at failed
  next => simp_all

theorem start_committed (content : δ) (conn : IdleConn) : (start content conn).committed = content := by
  cases conn <;> rfl

end Db

namespace Puller
variable {σ ρ : Type} (puller : Puller σ ρ) (source : List σ) (ids : List Int)

/-- A pull that began survives where its body leaves the one transaction open or gives up. -/
theorem survives_of_whole {faults : PullFaults} {conn : IdleConn} {before : List ρ}
    (began : Db.exec Db.begin' faults.transaction.begin'.1 faults.transaction.begin'.2
      (Db.start before conn) = ((Db.start before conn).began,.done))
    (whole : puller.clearAndCopy source ids faults (Db.start before conn).began =
        ({Db.start before conn with conn := .live (some {work := puller.pulled source ids before})},true) ∨
      (puller.clearAndCopy source ids faults (Db.start before conn).began).2 = false ∧
        (puller.clearAndCopy source ids faults (Db.start before conn).began).1.committed =
          (Db.start before conn).committed)
    (direct : (Db.exec (puller.clearQuery ids) faults.clear.1 faults.clear.2
      (Db.start before conn).began).1.direct = (Db.start before conn).direct) :
    puller.Survives source ids faults conn before := by
  have ends := Db.transaction_whole _ _ began whole
  rw [Db.start_committed] at ends
  refine ⟨ends,?_⟩
  intro opened done
  obtain rfl : (Db.start before conn).began = opened := by simpa [began] using done
  exact direct

theorem clearAndCopy_failed {faults : PullFaults} {db : Db (List ρ)}
    (failed : (Db.exec (puller.clearQuery ids) faults.clear.1 faults.clear.2 db).2 ≠ .done) :
    puller.clearAndCopy source ids faults db =
      ((Db.exec (puller.clearQuery ids) faults.clear.1 faults.clear.2 db).1,false) := by
  unfold clearAndCopy
  split
  next next done => simp [done] at failed
  next next _ ended => rw [ended]

theorem pull_survives_iff (faults : PullFaults) (conn : IdleConn) (before : List ρ) :
    puller.Survives source ids faults conn before ↔
      ¬(Begins conn faults.transaction.begin'.1 faults.transaction.begin'.2 ∧ Reruns faults.clear) := by
  obtain ⟨opens,failing⟩ := Db.exec_begin before conn faults.transaction.begin'.1 faults.transaction.begin'.2
  have content := Db.start_committed before conn
  by_cases begins : Begins conn faults.transaction.begin'.1 faults.transaction.begin'.2
  · have began := opens begins
    obtain ⟨answered,cleared⟩ | ⟨reruns,direct⟩ | ⟨quiet,failed,untouched⟩ :=
      Db.exec_clear (Db.start before conn) (rfl : (puller.clearQuery ids).kind = .plain false)
        faults.clear.1 faults.clear.2
    · have copied := Db.copyEx_inside (Db.start before conn) ((puller.clearQuery ids).effect before)
        faults.copy (puller.copied source ids)
      refine iff_of_true (puller.survives_of_whole source ids began ?_ ?_) (fun both => both.2.1 answered)
      · simpa [clearAndCopy,cleared,content,pulled] using copied
      · rw [cleared]
    · refine iff_of_false ?_ (fun fine => fine ⟨begins,reruns⟩)
      intro survives
      have inside := survives.2 _ began
      rw [direct] at inside
      simp [Db.began] at inside
    · refine iff_of_true (puller.survives_of_whole source ids began (.inr ?_) ?_) (fun both => quiet both.2)
      · rw [puller.clearAndCopy_failed source ids failed]
        exact ⟨rfl,untouched.1⟩
      · exact untouched.2
  · obtain ⟨failed,same,_⟩ := failing begins
    refine iff_of_true ⟨?_,?_⟩ (fun both => begins both.1)
    · rw [pull,Db.transaction_unbegun _ failed]
      exact .inl (same.trans content)
    · intro opened done
      simp [done] at failed

/-- The clearing statement fails, the ping reconnects, and the table is cleared outside the
transaction that the copy then fails in. -/
theorem pull_loses_table : ¬∀ (puller : Puller Nat Nat) (source : List Nat) (ids : List Int)
    (faults : PullFaults) (conn : IdleConn) (before : List Nat),
    puller.Survives source ids faults conn before := by
  intro survives
  let answered : Request := ⟨.ok,.answered⟩
  let fine : Trial := ⟨.ok,.answered,answered,answered⟩
  let refused : Trial := ⟨.ok,.refused,answered,answered⟩
  have after := (survives ⟨none,fun _ => true,id⟩ [2] [] ⟨⟨(fine,fine),(fine,fine),(fine,fine)⟩,
    (refused,fine),⟨true,true,.ok,.refused⟩⟩ .ready [1]).1
  exact absurd after (by decide)

end Puller
end Call45Aggr
