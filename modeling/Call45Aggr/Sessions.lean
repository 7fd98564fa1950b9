import Call45Aggr.Common
import Call45Aggr.ParamQuery

/-! `BDb`: the sessions it opens one after another, the statements sent in each, and the
retries, reconnects and pings that decide in which session a statement is sent. -/
namespace Call45Aggr.Sessions
open NumberParsing (cString strtol)

/-- `ExecStatusType`, as far as it is looked at. -/
inductive ExecStatus
  | commandOk
  | tuplesOk
  | copyOut
  | copyIn
  | failed
  deriving DecidableEq

def ExecStatus.succeeded : ExecStatus → Bool
  | .commandOk | .tuplesOk => true
  | .copyOut | .copyIn | .failed => false

/-- A result: its status, its number of rows and its first value. -/
structure Reply where
  status : ExecStatus
  size : Nat := 0
  value : String := ""
  deriving DecidableEq

/-- What the server does: whether it takes the n-th session, and how it answers the n-th
statement it is sent. -/
structure Server where
  accepts : Nat → Bool
  reply : Nat → Reply

structure Sent where
  session : Nat
  statement : String
  parameters : List QueryParameter := []
  reply : Reply
  deriving DecidableEq

inductive Thrown
  | dbException
  | exception
  | runtimeError
  | logicError
  | undefined
  deriving DecidableEq

/-- `sessions` has for each session opened so far the key that was to be locked in it, and
`sent` every statement sent. The code keeps neither. -/
structure BDb where
  conn : Option Nat := none
  needAdvisoryLock : Int := 0
  sessions : List Int := []
  sent : List Sent := []

namespace BDb
variable (server : Server)

def connected (db : BDb) : Bool := db.conn.isSome

def disconnect (db : BDb) : BDb := {db with conn := none}

/-- `PQexec` and `PQexecParams`: without a connection nothing is sent. -/
def send (db : BDb) (statement : String) (parameters : List QueryParameter := []) : BDb × Reply :=
  match db.conn with
  | some session =>
    let reply := server.reply db.sent.length
    ({db with sent := db.sent ++ [{session,statement,parameters,reply}]},reply)
  | none => (db,{status := .failed})

def lockQuery (key : Int) : String := "select pg_try_advisory_lock(" ++ toString key ++ ") as locked"

def timeZone : String := "set session time zone '+00'"

def locked (reply : Reply) : Bool := reply.value.toList.head? = some 't'

def setTimeZone (db : BDb) : BDb × Except Thrown Unit :=
  match db.send server timeZone with
  | (db,reply) =>
    if reply.status = .commandOk then (db,.ok ()) else (db.disconnect,.error .dbException)

def tryAdvisoryLock (db : BDb) : BDb × Except Thrown Unit :=
  if db.needAdvisoryLock = 0 then (db,.ok ())
  else
    match db.send server (lockQuery db.needAdvisoryLock) with
    | (db,reply) =>
      if reply.status ≠ .tuplesOk then (db.disconnect,.error .dbException)
      else if locked reply then (db,.ok ())
      else (db.disconnect,.error .exception)

/-- `PQconnectdb` -/
def opening (db : BDb) : BDb :=
  {db with conn := some db.sessions.length,sessions := db.sessions ++ [db.needAdvisoryLock]}

def connect (db : BDb) : BDb × Except Thrown Unit :=
  if db.connected then (db,.ok ())
  else if server.accepts db.sessions.length then
    match db.opening.tryAdvisoryLock server with
    | (db,.ok ()) => db.setTimeZone server
    | failure => failure
  else (db.opening.disconnect,.error .dbException)

/-- The loops of `exec` and `query`: only a `DbException` is caught. -/
def attempts {ρ : Type} (attempt : BDb → BDb × Except Thrown ρ) : Nat → BDb → BDb × Except Thrown ρ
  | 0, db => (db,.error .dbException)
  | count + 1, db =>
    match attempt db with
    | (db,.error .dbException) => attempts attempt count db
    | other => other

def attemptsCount (db : BDb) : Nat := if db.connected then 2 else 1

def queryTry (squery : String) (db : BDb) : BDb × Except Thrown Reply :=
  match db.connect server with
  | (db,.error thrown) => (db,.error thrown)
  | (db,.ok ()) =>
    match db.send server squery with
    | (db,reply) =>
      if reply.status = .tuplesOk then (db,.ok reply) else (db.disconnect,.error .dbException)

def query (db : BDb) (squery : String) : BDb × Except Thrown Reply :=
  attempts (queryTry server squery) db.attemptsCount db

def ping (db : BDb) : BDb × Bool :=
  match db.query server "SELECT 9 as result" with
  | (db,.ok res) => (db,res.size = 1 && toInt32 (strtol (cString res.value)).1 = 9)
  | (db,.error _) => (db,false)

/-- What every failed statement but a `query` is followed by. -/
def recover (db : BDb) : BDb :=
  match db.ping server with
  | (db,true) => db
  | (db,false) => db.disconnect

def execTry (squery : String) (db : BDb) : BDb × Except Thrown Unit :=
  match db.connect server with
  | (db,.error thrown) => (db,.error thrown)
  | (db,.ok ()) =>
    match db.send server squery with
    | (db,reply) => if reply.status = .commandOk then (db,.ok ()) else (db.recover server,.error .dbException)

def exec (db : BDb) (squery : String) : BDb × Except Thrown Unit :=
  attempts (execTry server squery) db.attemptsCount db

def sendParams (q : ParamQuery) (row : List QueryParameter) (db : BDb) : BDb × Except Thrown Reply :=
  match db.send server q.query row with
  | (db,reply) => if reply.status.succeeded then (db,.ok reply) else (db.recover server,.error .dbException)

def execRows (q : ParamQuery) : List Nat → BDb → BDb × Except Thrown Unit
  | [], db => (db,.ok ())
  | rowIdx :: rest, db =>
    if q.isEmpty rowIdx then execRows q rest db
    else
      match q.parameters rowIdx with
      | some (.ok row) =>
        match sendParams server q (row.getD []) db with
        | (db,.ok _) => execRows q rest db
        | (db,.error thrown) => (db,.error thrown)
      | some (.error _) => (db,.error .runtimeError)
      | none => (db,.error .undefined)

def execParams (db : BDb) (q : ParamQuery) : BDb × Except Thrown Unit :=
  match db.connect server with
  | (db,.error thrown) => (db,.error thrown)
  | (db,.ok ()) => execRows server q (List.range q.levelsCount) db

def queryParams (db : BDb) (q : ParamQuery) : BDb × Except Thrown Reply :=
  match db.connect server with
  | (db,.error thrown) => (db,.error thrown)
  | (db,.ok ()) =>
    match q.parameters 0 with
    | some (.ok row) => sendParams server q (row.getD []) db
    | some (.error _) => (db,.error .runtimeError)
    | none => (db,.error .undefined)

inductive Call
  | needAdvisoryLock (key : Int)
  | connect
  | disconnect
  | exec (squery : String)
  | query (squery : String)
  | execParams (query : ParamQuery)
  | queryParams (query : ParamQuery)
  | ping

def call (db : BDb) : Call → BDb
  | .needAdvisoryLock key => {db with needAdvisoryLock := key}
  | .connect => (db.connect server).1
  | .disconnect => db.disconnect
  | .exec squery => (db.exec server squery).1
  | .query squery => (db.query server squery).1
  | .execParams query => (db.execParams server query).1
  | .queryParams query => (db.queryParams server query).1
  | .ping => (db.ping server).1

def run (calls : List Call) : BDb := calls.foldl (call server) {}

def statements (db : BDb) (session : Nat) : List Sent := db.sent.filter fun entry => entry.session = session

/-- The statements that set a session up, with the answers they need. -/
def setup (key : Int) : List (String × (Reply → Bool)) :=
  let lock : String × (Reply → Bool) := (lockQuery key,fun reply => reply.status = .tuplesOk && locked reply)
  let zone : String × (Reply → Bool) := (timeZone,fun reply => reply.status = .commandOk)
  if key = 0 then [zone] else [lock,zone]

def Answered (entry : Sent) (step : String × (Reply → Bool)) : Prop :=
  entry.statement = step.1 ∧ step.2 entry.reply = true

/-- The session has its lock, if one was asked for, and its time zone; all else came after. -/
def SetUp (key : Int) (sent : List Sent) : Prop :=
  ∃ first users, sent = first ++ users ∧ List.Forall₂ Answered first (setup key)

/-- The session got no further than its setup. -/
def Refused (key : Int) (sent : List Sent) : Prop :=
  sent.map (·.statement) <+: (setup key).map (·.1)

structure Prepared (db : BDb) : Prop where
  known : ∀ entry ∈ db.sent, entry.session < db.sessions.length
  ordered : (db.sent.map (·.session)).Pairwise (· ≤ ·)
  latest : ∀ session ∈ db.conn, session + 1 = db.sessions.length
  begun : ∀ session key, db.sessions[session]? = some key →
    SetUp key (db.statements session) ∨ Refused key (db.statements session)
  ready : ∀ session ∈ db.conn, ∀ key, db.sessions[session]? = some key → SetUp key (db.statements session)

variable {server}

theorem SetUp.append {key : Int} {sent : List Sent} (setUp : SetUp key sent) (more : List Sent) :
    SetUp key (sent ++ more) := by
  obtain ⟨first,users,rfl,answered⟩ := setUp
  exact ⟨first,users ++ more,List.append_assoc _ _ _,answered⟩

def record (db : BDb) (entry : Sent) : BDb := {db with sent := db.sent ++ [entry]}

/-- The new session of `next`, and what was sent in it. -/
structure Began (db next : BDb) (part : List Sent) : Prop where
  sessions : next.sessions = db.sessions ++ [db.needAdvisoryLock]
  sent : next.sent = db.sent ++ part
  own : ∀ entry ∈ part, entry.session = db.sessions.length ∧ entry.parameters = []

/-- What `connect` makes of a closed connection: a session with all of its setup, or with a
part of it and closed again. -/
inductive Opened (db : BDb) : BDb × Except Thrown Unit → Prop
  | live (next : BDb) (part : List Sent) (began : Began db next part)
      (conn : next.conn = some db.sessions.length)
      (setUp : List.Forall₂ Answered part (setup db.needAdvisoryLock)) : Opened db (next,.ok ())
  | refused (next : BDb) (part : List Sent) (thrown : Thrown) (began : Began db next part)
      (conn : next.conn = none) (short : Refused db.needAdvisoryLock part) : Opened db (next,.error thrown)

theorem send_live {db : BDb} {session : Nat} (live : db.conn = some session) (statement : String)
    (parameters : List QueryParameter) : ∃ entry : Sent, entry.session = session ∧ entry.statement = statement ∧
      entry.parameters = parameters ∧ db.send server statement parameters = (db.record entry,entry.reply) := by
  refine ⟨⟨session,statement,parameters,server.reply db.sent.length⟩,rfl,rfl,rfl,?_⟩
  simp only [send,live,record]

theorem setTimeZone_live {db : BDb} {session : Nat} (live : db.conn = some session) :
    ∃ entry : Sent, (entry.session = session ∧ entry.parameters = []) ∧ entry.statement = timeZone ∧
      ((db.setTimeZone server = (db.record entry,.ok ()) ∧ entry.reply.status = .commandOk) ∨
        db.setTimeZone server = ((db.record entry).disconnect,.error .dbException)) := by
  obtain ⟨entry,own,text,plain,sent⟩ := @send_live server _ _ live timeZone []
  refine ⟨entry,⟨own,plain⟩,text,?_⟩
  simp only [setTimeZone,sent]
  split
  next good => exact .inl ⟨rfl,good⟩
  next => exact .inr rfl

theorem tryAdvisoryLock_live {db : BDb} {session : Nat} (live : db.conn = some session)
    (wanted : db.needAdvisoryLock ≠ 0) :
    ∃ entry : Sent, (entry.session = session ∧ entry.parameters = []) ∧
      entry.statement = lockQuery db.needAdvisoryLock ∧
      ((db.tryAdvisoryLock server = (db.record entry,.ok ()) ∧
          entry.reply.status = .tuplesOk ∧ locked entry.reply = true) ∨
        ∃ thrown, db.tryAdvisoryLock server = ((db.record entry).disconnect,.error thrown)) := by
  obtain ⟨entry,own,text,plain,sent⟩ := @send_live server _ _ live (lockQuery db.needAdvisoryLock) []
  refine ⟨entry,⟨own,plain⟩,text,?_⟩
  simp only [tryAdvisoryLock,wanted,if_false,sent]
  split
  next => exact .inr ⟨_,rfl⟩
  next good =>
    split
    next taken => exact .inl ⟨rfl,by simpa using good,taken⟩
    next => exact .inr ⟨_,rfl⟩

theorem connect_opened {db : BDb} (closed : db.conn = none) : Opened db (db.connect server) := by
  unfold connect
  rw [if_neg (by simp [connected,closed])]
  split
  next =>
    have live : db.opening.conn = some db.sessions.length := rfl
    by_cases unlocked : db.needAdvisoryLock = 0
    · have skipped : db.opening.tryAdvisoryLock server = (db.opening,.ok ()) := by
        simp [tryAdvisoryLock,opening,unlocked]
      rw [skipped]
      obtain ⟨zone,own,text,⟨set,good⟩ | set⟩ := @setTimeZone_live server _ _ live
      · dsimp only
        rw [set]
        exact .live _ [zone] ⟨rfl,rfl,by simpa using own⟩ rfl (by simp [setup,unlocked,Answered,text,good])
      · dsimp only
        rw [set]
        exact .refused _ [zone] _ ⟨rfl,rfl,by simpa using own⟩ rfl (by simp [Refused,setup,unlocked,text])
    · obtain ⟨lock,owned,query,⟨taken,status,held⟩ | ⟨thrown,failed⟩⟩ :=
        @tryAdvisoryLock_live server _ _ live unlocked
      · rw [taken]
        have live : (db.opening.record lock).conn = some db.sessions.length := rfl
        have asked : lock.statement = lockQuery db.needAdvisoryLock := query
        obtain ⟨zone,own,text,⟨set,good⟩ | set⟩ := @setTimeZone_live server _ _ live
        · dsimp only
          rw [set]
          refine .live _ [lock,zone] ⟨rfl,?_,by simp [owned,own]⟩ rfl ?_
          · simp [record,opening]
          · simp [setup,unlocked,Answered,asked,status,held,text,good]
        · dsimp only
          rw [set]
          refine .refused _ [lock,zone] _ ⟨rfl,?_,by simp [owned,own]⟩ rfl ?_
          · simp [record,opening,disconnect]
          · simp [Refused,setup,unlocked,asked,text]
      · rw [failed]
        have asked : lock.statement = lockQuery db.needAdvisoryLock := query
        exact .refused _ [lock] _ ⟨rfl,rfl,by simpa using owned⟩ rfl (by simp [Refused,setup,unlocked,asked])
  next =>
    exact .refused _ [] _ ⟨rfl,(List.append_nil _).symm,by simp⟩ rfl (List.nil_prefix)

theorem connect_live {db next : BDb} (opened : db.connect server = (next,.ok ())) :
    ∃ session, next.conn = some session := by
  cases conn : db.conn with
  | some session =>
    rw [connect,if_pos (by simp [connected,conn])] at opened
    obtain rfl := (Prod.mk.inj opened).1
    exact ⟨session,conn⟩
  | none =>
    have fresh := @connect_opened server _ conn
    rw [opened] at fresh
    cases fresh with
    | live _ part began live setUp => exact ⟨_,live⟩

theorem statements_append {db next : BDb} {part : List Sent} (sent : next.sent = db.sent ++ part) (session : Nat) :
    next.statements session = db.statements session ++ part.filter fun entry => entry.session = session := by
  simp [statements,sent]

/-- Statements of the connected session keep everything prepared. -/
theorem Prepared.record {db : BDb} (prepared : db.Prepared) {session : Nat} (live : db.conn = some session)
    {entry : Sent} (own : entry.session = session) : (db.record entry).Prepared := by
  obtain ⟨known,ordered,latest,begun,ready⟩ := prepared
  have last := latest session live
  have split (other : Nat) := @statements_append db (db.record entry) [entry] rfl other
  refine ⟨?_,?_,latest,?_,?_⟩
  · intro item member
    rcases List.mem_append.mp member with old | new
    · exact known item old
    · cases List.mem_singleton.mp new
      simp only [BDb.record]
      omega
  · simp only [BDb.record,List.map_append,List.map_cons,List.map_nil]
    refine List.pairwise_append.mpr ⟨ordered,List.pairwise_singleton _ _,?_⟩
    intro earlier member later here
    obtain ⟨item,inside,rfl⟩ := List.mem_map.mp member
    cases List.mem_singleton.mp here
    have bound := known item inside
    omega
  · intro other key found
    rw [split other]
    by_cases same : other = session
    · subst same
      exact .inl ((ready other live key found).append _)
    · rw [List.filter_cons_of_neg (by simp [own,Ne.symm same]),List.filter_nil,List.append_nil]
      exact begun other key found
  · intro other here key found
    rw [split other]
    exact (ready other here key found).append _

theorem Prepared.disconnect {db : BDb} (prepared : db.Prepared) : db.disconnect.Prepared :=
  ⟨prepared.known,prepared.ordered,by simp [BDb.disconnect],prepared.begun,by simp [BDb.disconnect]⟩

theorem Prepared.statements_new {db : BDb} (prepared : db.Prepared) : db.statements db.sessions.length = [] := by
  refine List.filter_eq_nil_iff.mpr fun entry member => ?_
  have bound := prepared.known entry member
  simp
  omega

theorem Prepared.began {db next : BDb} {part : List Sent} (prepared : db.Prepared) (began : Began db next part)
    (conn : ∀ session ∈ next.conn, session = db.sessions.length ∧ SetUp db.needAdvisoryLock part)
    (begun : SetUp db.needAdvisoryLock part ∨ Refused db.needAdvisoryLock part) : next.Prepared := by
  obtain ⟨sessions,sent,own⟩ := began
  have mine : part.filter (fun entry => entry.session = db.sessions.length) = part :=
    List.filter_eq_self.mpr fun entry member => by simpa using (own entry member).1
  have fresh : next.statements db.sessions.length = part := by
    rw [statements_append sent,prepared.statements_new,mine,List.nil_append]
  have last (key : Int) (found : next.sessions[db.sessions.length]? = some key) : key = db.needAdvisoryLock := by
    simpa [sessions] using found.symm
  have size : next.sessions.length = db.sessions.length + 1 := by simp [sessions]
  refine ⟨?_,?_,?_,?_,?_⟩
  · intro entry member
    rw [sent] at member
    rcases List.mem_append.mp member with old | new
    · have bound := prepared.known entry old
      omega
    · have here := (own entry new).1
      omega
  · rw [sent,List.map_append]
    refine List.pairwise_append.mpr ⟨prepared.ordered,?_,?_⟩
    · rw [List.map_congr_left fun entry member => (own entry member).1]
      simp
    · intro earlier before later after
      obtain ⟨first,inside,rfl⟩ := List.mem_map.mp before
      obtain ⟨second,within,rfl⟩ := List.mem_map.mp after
      have bound := prepared.known first inside
      have here := (own second within).1
      omega
  · intro session here
    rw [(conn session here).1,size]
  · intro session key found
    by_cases same : session = db.sessions.length
    · subst same
      rw [fresh,last key found]
      exact begun
    · have other : part.filter (fun entry => entry.session = session) = [] := by
        refine List.filter_eq_nil_iff.mpr fun entry member => ?_
        simp [(own entry member).1,Ne.symm same]
      rw [statements_append sent,other,List.append_nil]
      refine prepared.begun session key ?_
      rw [sessions] at found
      have bound : session < (db.sessions ++ [db.needAdvisoryLock]).length := (List.getElem?_eq_some_iff.mp found).1
      rw [List.length_append,List.length_singleton] at bound
      rwa [List.getElem?_append_left (by omega)] at found
  · intro session here key found
    obtain ⟨rfl,setUp⟩ := conn session here
    rw [fresh,last key found]
    exact setUp

theorem Prepared.send {db : BDb} (prepared : db.Prepared) (statement : String) (parameters : List QueryParameter) :
    (db.send server statement parameters).1.Prepared := by
  cases conn : db.conn with
  | none =>
    simp only [BDb.send,conn]
    exact prepared
  | some session =>
    obtain ⟨entry,own,_,_,sent⟩ := @send_live server _ _ conn statement parameters
    rw [sent]
    exact prepared.record conn own

theorem Prepared.connect {db : BDb} (prepared : db.Prepared) : (db.connect server).1.Prepared := by
  cases conn : db.conn with
  | some session =>
    rw [BDb.connect,if_pos (by simp [connected,conn])]
    exact prepared
  | none =>
    have opened := @connect_opened server _ conn
    generalize db.connect server = result at opened
    cases opened with
    | live next part began live setUp =>
      have complete : SetUp db.needAdvisoryLock part := ⟨part,[],(List.append_nil _).symm,setUp⟩
      refine prepared.began began (fun session here => ?_) (.inl complete)
      rw [live] at here
      exact ⟨(Option.some.inj here).symm,complete⟩
    | refused next part thrown began closed short =>
      refine prepared.began began (fun session here => ?_) (.inr short)
      rw [closed] at here
      contradiction

/-- A property that connecting, sending and disconnecting keep is kept by every call. -/
structure Kept (server : Server) (P : BDb → Prop) : Prop where
  connect : ∀ {db : BDb}, P db → P (db.connect server).1
  send : ∀ {db : BDb}, P db → ∀ statement, P (db.send server statement).1
  disconnect : ∀ {db : BDb}, P db → P db.disconnect

structure KeptRows (server : Server) (P : BDb → Prop) : Prop extends Kept server P where
  sendRow : ∀ {db : BDb}, P db → ∀ statement row, P (db.send server statement row).1

theorem attempts_kept {ρ : Type} {P : BDb → Prop} {attempt : BDb → BDb × Except Thrown ρ}
    (tried : ∀ db : BDb, P db → P (attempt db).1) (count : Nat) {db : BDb} (holds : P db) :
    P (attempts attempt count db).1 := by
  induction count generalizing db with
  | zero => exact holds
  | succ count ih =>
    have once := tried db holds
    rw [attempts]
    split
    next next caught =>
      rw [caught] at once
      exact ih once
    next => exact once

namespace Kept
variable {P : BDb → Prop} (kept : Kept server P) {db : BDb} (holds : P db)
include kept holds

theorem queryTry (squery : String) : P (queryTry server squery db).1 := by
  have opened := kept.connect holds
  rw [BDb.queryTry]
  split
  next next thrown failed =>
    rw [failed] at opened
    exact opened
  next next ok =>
    rw [ok] at opened
    have sent := kept.send opened squery
    dsimp only
    split
    · exact sent
    · exact kept.disconnect sent

theorem query (squery : String) : P (db.query server squery).1 := by
  apply attempts_kept _ _ holds
  exact fun db holds => kept.queryTry holds squery

theorem ping : P (db.ping server).1 := by
  have asked := kept.query holds "SELECT 9 as result"
  rw [BDb.ping]
  split
  next next res answered =>
    rw [answered] at asked
    exact asked
  next next thrown failed =>
    rw [failed] at asked
    exact asked

theorem recover : P (db.recover server) := by
  have pinged := kept.ping holds
  rw [BDb.recover]
  split
  next next alive =>
    rw [alive] at pinged
    exact pinged
  next next lost =>
    rw [lost] at pinged
    exact kept.disconnect pinged

theorem execTry (squery : String) : P (execTry server squery db).1 := by
  have opened := kept.connect holds
  rw [BDb.execTry]
  split
  next next thrown failed =>
    rw [failed] at opened
    exact opened
  next next ok =>
    rw [ok] at opened
    have sent := kept.send opened squery
    dsimp only
    split
    · exact sent
    · exact kept.recover sent

theorem exec (squery : String) : P (db.exec server squery).1 := by
  apply attempts_kept _ _ holds
  exact fun db holds => kept.execTry holds squery

end Kept

namespace KeptRows
variable {P : BDb → Prop} (kept : KeptRows server P) {db : BDb} (holds : P db)
include kept holds

theorem sendParams (q : ParamQuery) (row : List QueryParameter) : P (sendParams server q row db).1 := by
  have sent := kept.sendRow holds q.query row
  rw [BDb.sendParams]
  dsimp only
  split
  · exact sent
  · exact kept.toKept.recover sent

theorem execRows (q : ParamQuery) (rows : List Nat) : P (execRows server q rows db).1 := by
  induction rows generalizing db with
  | nil => exact holds
  | cons rowIdx rest ih =>
    rw [BDb.execRows]
    split
    · exact ih holds
    · split
      next row _ =>
        have sent := kept.sendParams holds q (row.getD [])
        split
        next next reply done =>
          rw [done] at sent
          exact ih sent
        next next thrown failed =>
          rw [failed] at sent
          exact sent
      next => exact holds
      next => exact holds

theorem execParams (q : ParamQuery) : P (db.execParams server q).1 := by
  have opened := kept.connect holds
  rw [BDb.execParams]
  split
  next next thrown failed =>
    rw [failed] at opened
    exact opened
  next next ok =>
    rw [ok] at opened
    exact kept.execRows opened q _

theorem queryParams (q : ParamQuery) : P (db.queryParams server q).1 := by
  have opened := kept.connect holds
  rw [BDb.queryParams]
  split
  next next thrown failed =>
    rw [failed] at opened
    exact opened
  next next ok =>
    rw [ok] at opened
    split
    next row _ => exact kept.sendParams opened q _
    next => exact opened
    next => exact opened

end KeptRows

theorem prepared_kept : KeptRows server Prepared where
  connect := fun prepared => prepared.connect
  send := fun prepared statement => prepared.send statement []
  disconnect := fun prepared => prepared.disconnect
  sendRow := fun prepared statement row => prepared.send statement row

theorem Prepared.call {db : BDb} (prepared : db.Prepared) (call : Call) : (db.call server call).Prepared := by
  cases call with
  | needAdvisoryLock key => exact ⟨prepared.known,prepared.ordered,prepared.latest,prepared.begun,prepared.ready⟩
  | connect => exact prepared.connect
  | disconnect => exact prepared.disconnect
  | exec squery => exact prepared_kept.toKept.exec prepared squery
  | query squery => exact prepared_kept.toKept.query prepared squery
  | execParams query => exact prepared_kept.execParams prepared query
  | queryParams query => exact prepared_kept.queryParams prepared query
  | ping => exact prepared_kept.toKept.ping prepared

theorem run_prepared (calls : List Call) : (run server calls).Prepared := by
  have kept : ∀ db : BDb, db.Prepared → (calls.foldl (call server) db).Prepared := by
    induction calls with
    | nil => exact fun _ prepared => prepared
    | cons first rest ih => exact fun db prepared => ih _ (prepared.call first)
  exact kept {} ⟨by simp,by simp,by simp,by simp,by simp⟩

/-- Whatever is called and whatever the server answers: the sessions are used one after
another, and in each of them nothing is sent before it has its lock and its time zone. -/
theorem sessions_set_up (server : Server) (calls : List Call) :
    ((run server calls).sent.map (·.session)).Pairwise (· ≤ ·) ∧
    (∀ session key, (run server calls).sessions[session]? = some key →
      SetUp key ((run server calls).statements session) ∨ Refused key ((run server calls).statements session)) ∧
    ∀ session ∈ (run server calls).conn, session + 1 = (run server calls).sessions.length ∧
      ∀ key, (run server calls).sessions[session]? = some key → SetUp key ((run server calls).statements session) := by
  have prepared := @run_prepared server calls
  exact ⟨prepared.ordered,prepared.begun,fun session here => ⟨prepared.latest session here,prepared.ready session here⟩⟩

def filled (q : ParamQuery) (rows : List Nat) : List (List QueryParameter) :=
  (rows.map fun rowIdx => (q.rows[rowIdx]?).getD []).filter fun row => row ≠ []

theorem filled_all (q : ParamQuery) : filled q (List.range q.levelsCount) = q.rows.filter fun row => row ≠ [] := by
  have whole : (List.range q.levelsCount).map (fun rowIdx => (q.rows[rowIdx]?).getD []) = q.rows := by
    apply List.ext_getElem
    · simp [ParamQuery.levelsCount]
    · intro rowIdx _ inside
      simp [inside]
  rw [filled,whole]

/-- The rows sent are the first of the rows that have values, each with as many values as
the query takes, and only the last one may have failed. -/
structure InOrder (q : ParamQuery) (session : Nat) (rows : List (List QueryParameter)) (entries : List Sent) :
    Prop where
  order : entries.map (·.parameters) <+: rows
  own : ∀ entry ∈ entries, entry.session = session ∧ entry.statement = q.query ∧ entry.parameters.length = q.width
  before : ∀ entry ∈ entries.dropLast, entry.reply.status.succeeded = true

/-- Why `exec` came to its end: the rows are used up, the next one has another number of
values, or the last one failed. -/
def Ended (q : ParamQuery) (rows : List (List QueryParameter)) (entries later : List Sent) :
    Except Thrown Unit → Prop
  | .ok () => entries.map (·.parameters) = rows ∧ later = [] ∧
    ∀ entry ∈ entries, entry.reply.status.succeeded = true
  | .error .runtimeError => later = [] ∧ (∀ entry ∈ entries, entry.reply.status.succeeded = true) ∧
    ∃ row, entries.map (·.parameters) ++ [row] <+: rows ∧ row.length ≠ q.width
  | .error .dbException => (∀ entry ∈ later, entry.parameters = []) ∧
    ∃ entry ∈ entries.getLast?, entry.reply.status.succeeded = false
  | .error _ => False

theorem Ended.cons {q : ParamQuery} {rows : List (List QueryParameter)} {entries later : List Sent}
    {outcome : Except Thrown Unit} (ended : Ended q rows entries later outcome) (entry : Sent)
    (good : entry.reply.status.succeeded = true) : Ended q (entry.parameters :: rows) (entry :: entries) later outcome := by
  match outcome, ended with
  | .ok (), ⟨used,nothing,all⟩ =>
    exact ⟨congrArg (entry.parameters :: ·) used,nothing,List.forall_mem_cons.mpr ⟨good,all⟩⟩
  | .error .runtimeError, ⟨nothing,all,row,sent,misfit⟩ =>
    exact ⟨nothing,List.forall_mem_cons.mpr ⟨good,all⟩,row,(List.prefix_cons_inj _).mpr sent,misfit⟩
  | .error .dbException, ⟨plain,last,here,failed⟩ =>
    exact ⟨plain,last,List.mem_getLast?_cons here,failed⟩

theorem isEmpty_eq (q : ParamQuery) (rowIdx : Nat) : q.isEmpty rowIdx = decide ((q.rows[rowIdx]?).getD [] = []) := by
  unfold ParamQuery.isEmpty
  split
  next beyond => simp [List.getElem?_eq_none beyond]
  next inside =>
    rw [List.getElem?_eq_getElem (by omega)]
    cases q.rows[rowIdx] <;> simp

theorem parameters_filled {q : ParamQuery} {rowIdx : Nat} (nonempty : q.isEmpty rowIdx = false) :
    (((q.rows[rowIdx]?).getD []).length = q.width ∧
        q.parameters rowIdx = some (.ok (some ((q.rows[rowIdx]?).getD [])))) ∨
      ((q.rows[rowIdx]?).getD []).length ≠ q.width ∧ ∃ message, q.parameters rowIdx = some (.error message) := by
  rw [isEmpty_eq] at nonempty
  obtain ⟨row,found⟩ : ∃ row, q.rows[rowIdx]? = some row := by
    cases found : q.rows[rowIdx]? with
    | none => simp [found] at nonempty
    | some row => exact ⟨row,rfl⟩
  have inside : rowIdx < q.rows.length := (List.getElem?_eq_some_iff.mp found).1
  have values : row ≠ [] := by simpa [found] using nonempty
  simp only [ParamQuery.parameters,if_neg (Nat.not_lt.mpr inside.le),found,Option.map_some,Option.getD_some,
    if_neg values]
  by_cases width : row.length = q.width
  · exact .inl ⟨width,by rw [if_neg (not_not_intro width)]⟩
  · exact .inr ⟨width,_,by rw [if_pos width]⟩

/-- What was sent stays sent, and what follows it has no parameters. -/
def Followed (base : List Sent) (db : BDb) : Prop :=
  ∃ later, db.sent = base ++ later ∧ ∀ entry ∈ later, entry.parameters = []

theorem Followed.append {base : List Sent} {db next : BDb} (followed : Followed base db) {part : List Sent}
    (sent : next.sent = db.sent ++ part) (plain : ∀ entry ∈ part, entry.parameters = []) : Followed base next := by
  obtain ⟨later,rest,all⟩ := followed
  refine ⟨later ++ part,by rw [sent,rest,List.append_assoc],?_⟩
  exact List.forall_mem_append.mpr ⟨all,plain⟩

theorem followed_kept (base : List Sent) : Kept server (Followed base) where
  connect := by
    intro db followed
    cases conn : db.conn with
    | some session =>
      rw [BDb.connect,if_pos (by simp [connected,conn])]
      exact followed
    | none =>
      have opened := @connect_opened server _ conn
      generalize db.connect server = result at opened
      cases opened with
      | live next part began _ _ => exact followed.append began.sent fun entry member => (began.own entry member).2
      | refused next part _ began _ _ => exact followed.append began.sent fun entry member => (began.own entry member).2
  send := by
    intro db followed statement
    rw [BDb.send]
    split
    · exact followed.append rfl (by simp)
    · exact followed
  disconnect := fun followed => followed

theorem sendParams_live {db : BDb} {session : Nat} (live : db.conn = some session) (q : ParamQuery)
    (row : List QueryParameter) : ∃ entry : Sent,
      (entry.session = session ∧ entry.statement = q.query ∧ entry.parameters = row) ∧
      ((entry.reply.status.succeeded = true ∧ sendParams server q row db = (db.record entry,.ok entry.reply)) ∨
        (entry.reply.status.succeeded = false ∧ ∃ next later, sendParams server q row db = (next,.error .dbException) ∧
          next.sent = db.sent ++ [entry] ++ later ∧ ∀ item ∈ later, item.parameters = [])) := by
  obtain ⟨entry,own,text,values,sent⟩ := @send_live server _ _ live q.query row
  refine ⟨entry,⟨own,text,values⟩,?_⟩
  rw [sendParams,sent]
  by_cases good : entry.reply.status.succeeded = true
  · exact .inl ⟨good,if_pos good⟩
  · have start : Followed (db.sent ++ [entry]) (db.record entry) := ⟨[],(List.append_nil _).symm,by simp⟩
    obtain ⟨later,rest,plain⟩ := (@followed_kept server _).recover start
    exact .inr ⟨Bool.eq_false_iff.mpr good,_,later,if_neg good,rest,plain⟩

theorem execRows_inOrder {db : BDb} {session : Nat} (live : db.conn = some session) (q : ParamQuery)
    (rows : List Nat) : ∃ entries later,
      (execRows server q rows db).1.sent = db.sent ++ entries ++ later ∧
      InOrder q session (filled q rows) entries ∧
      Ended q (filled q rows) entries later (execRows server q rows db).2 := by
  induction rows generalizing db with
  | nil => exact ⟨[],[],by simp [execRows],⟨by simp,by simp,by simp⟩,by simp [execRows,Ended,filled]⟩
  | cons rowIdx rest ih =>
    cases empty : q.isEmpty rowIdx with
    | true =>
      have none : (q.rows[rowIdx]?).getD [] = [] := by simpa [isEmpty_eq] using empty
      have same : filled q (rowIdx :: rest) = filled q rest := by simp [filled,none]
      rw [execRows,if_pos empty,same]
      exact ih live
    | false =>
      have values : (q.rows[rowIdx]?).getD [] ≠ [] := by simpa [isEmpty_eq] using empty
      have head : filled q (rowIdx :: rest) = (q.rows[rowIdx]?).getD [] :: filled q rest := by simp [filled,values]
      rw [execRows,if_neg (by simp [empty]),head]
      obtain ⟨width,read⟩ | ⟨width,message,read⟩ := parameters_filled empty
      · rw [read]
        dsimp only
        rw [Option.getD_some]
        generalize (q.rows[rowIdx]?).getD [] = row at *
        obtain ⟨entry,⟨own,text,values⟩,⟨good,sent⟩ | ⟨failed,next,later,sent,grown,plain⟩⟩ :=
          @sendParams_live server _ _ live q row
        · rw [sent]
          obtain ⟨entries,later,grown,⟨order,all,before⟩,ended⟩ := @ih (db.record entry) live
          refine ⟨entry :: entries,later,?_,⟨?_,?_,?_⟩,?_⟩
          · simpa [record] using grown
          · simpa [values] using order
          · exact List.forall_mem_cons.mpr ⟨⟨own,text,values ▸ width⟩,all⟩
          · cases entries with
            | nil => simp
            | cons first others => exact List.forall_mem_cons.mpr ⟨good,before⟩
          · exact values ▸ ended.cons entry good
        · rw [sent]
          refine ⟨[entry],later,by simpa using grown,⟨by simp [values],?_,by simp⟩,?_⟩
          · exact List.forall_mem_singleton.mpr ⟨own,text,values ▸ width⟩
          · exact ⟨plain,entry,rfl,failed⟩
      · rw [read]
        exact ⟨[],[],by simp,⟨by simp,by simp,by simp⟩,rfl,by simp,_,by simp,width⟩

/-- Of the rows of a query every one that has values is sent once, in the order in which
they were added and in one session: a statement that fails or a row of another width ends
it, and no row is sent again. -/
theorem rows_sent_in_order (server : Server) (db : BDb) (q : ParamQuery) :
    (∃ next thrown, db.connect server = (next,.error thrown) ∧ db.execParams server q = (next,.error thrown)) ∨
    ∃ next session entries later, db.connect server = (next,.ok ()) ∧ next.conn = some session ∧
      (db.execParams server q).1.sent = next.sent ++ entries ++ later ∧
      InOrder q session (q.rows.filter fun row => row ≠ []) entries ∧
      Ended q (q.rows.filter fun row => row ≠ []) entries later (db.execParams server q).2 := by
  rw [execParams]
  cases opened : db.connect server with
  | mk next result =>
    cases result with
    | error thrown => exact .inl ⟨next,thrown,rfl,rfl⟩
    | ok done =>
      obtain ⟨session,live⟩ := connect_live opened
      obtain ⟨entries,later,sent,order,ended⟩ := @execRows_inOrder server _ _ live q (List.range q.levelsCount)
      rw [filled_all] at order ended
      exact .inr ⟨next,session,entries,later,rfl,live,sent,order,ended⟩

end BDb
end Call45Aggr.Sessions
