import Call45Aggr.DbPool

/-! The connection under `OnlineWatcher::run`: which socket is read, over which connection the
statements go, and what `select` waits on. A statement is its text and how it fares. -/
namespace Call45Aggr
open Library

/-- What `PQsocket` tells, -1 once the connection is known to be lost, and the statements executed
over the connection. -/
structure PGconn where
  socket : Int
  executed : List String := []
  deriving DecidableEq

/-- The status the caller asks for, another one, or the connection is lost. -/
inductive Reply
  | expected
  | other
  | lost
  deriving DecidableEq

def PGconn.exec (conn : PGconn) (reply : Reply) (squery : String) : PGconn × Bool :=
  if conn.socket < 0 then (conn,false)
  else
    match reply with
    | .expected => ({conn with executed := conn.executed ++ [squery]},true)
    | .other => (conn,false)
    | .lost => ({conn with socket := -1},false)

/-- The descriptor `PQconnectdb` would get, none where it fails, and the reply to the statement. -/
structure Sending where
  descriptor : Option Nat
  reply : Reply

/-- One try of `BDb::exec`, with both tries of the `query` in its `ping`. -/
structure Try extends Sending where
  ping : Sending × Sending

structure BDb where
  conn : Option PGconn := none
  deriving DecidableEq

namespace BDb

def pqSocket (db : BDb) : Int :=
  match db.conn with
  | some conn => conn.socket
  | none => -1

/-- The connection in use after `connect`, none where it throws. -/
def connect (db : BDb) (descriptor : Option Nat) : Option PGconn :=
  match db.conn with
  | some conn => some conn
  | none => descriptor.map fun descriptor => {socket := descriptor}

/-- The loop of `query` and `exec`; `false` is the exception at its end. -/
def attempts {ρ : Type} (attempt : BDb → ρ → BDb × Bool) (first second : ρ) (db : BDb) : BDb × Bool :=
  match attempt db first with
  | (next,true) => (next,true)
  | (next,false) => if db.conn.isSome then attempt next second else (next,false)

def queryTry (squery : String) (db : BDb) (sending : Sending) : BDb × Bool :=
  match db.connect sending.descriptor with
  | none => ({},false)
  | some conn =>
    match conn.exec sending.reply squery with
    | (conn,true) => ({conn := some conn},true)
    | (_,false) => ({},false)

def query (squery : String) (first second : Sending) (db : BDb) : BDb × Bool :=
  attempts (queryTry squery) first second db

def ping (sendings : Sending × Sending) (db : BDb) : BDb × Bool :=
  query "SELECT 9 as result" sendings.1 sendings.2 db

def execTry (squery : String) (db : BDb) (trial : Try) : BDb × Bool :=
  match db.connect trial.descriptor with
  | none => ({},false)
  | some conn =>
    match conn.exec trial.reply squery with
    | (conn,true) => ({conn := some conn},true)
    | (conn,false) =>
      match ping trial.ping {conn := some conn} with
      | (db,true) => (db,false)
      | (_,false) => ({},false)

def exec (squery : String) (first second : Try) (db : BDb) : BDb × Bool :=
  attempts (execTry squery) first second db

end BDb

inductive SqlCall
  | exec (squery : String)
  | query (squery : String)
  deriving DecidableEq

def SqlCall.text : SqlCall → String
  | exec squery => squery
  | query squery => squery

def SqlCall.call (first second : Try) (db : BDb) : SqlCall → BDb × Bool
  | exec squery => db.exec squery first second
  | query squery => db.query squery first.toSending second.toSending

def listens : List SqlCall := [
  .exec "LISTEN \"monitor.call_link_online.insert\"",
  .exec "LISTEN \"monitor.call_link_online.update\"",
  .exec "LISTEN \"monitor.call_link_online.delete\""]

/-- What `run` sends between `PQsocket` and its watch. -/
def preparation : List SqlCall :=
  .exec "BEGIN" :: .query "select * from call_leg_link_online" :: (listens ++ [.exec "COMMIT"])

inductive RunPhase
  | top
  | prepare (online : PoolConn) (sock : Int) (rest : List SqlCall)
  | watch (online : PoolConn) (sock : Int)
  | leave (online : PoolConn)
  | terminated
  deriving DecidableEq

/-- The pool of one database, the objects it has made, and where `run` stands. -/
structure Watcher where
  pool : DbPool
  created : Nat := 0
  objects : Nat → BDb := fun _ => {}
  phase : RunPhase := .top

namespace Watcher

inductive Action
  | take
  | statement (first second : Try)
  | watch
  | select (failed lost : Bool)
  | reload (now : Int)
  | deleteOlderThen (time threshold : Int) (reached : Int → Bool)
  | setConnectionString (connectionString : String)

def setObject (s : Watcher) (online : PoolConn) (db : BDb) : Watcher :=
  {s with objects := fun id => if id = online.id then db else s.objects id}

/-- The object `DbPool::get` hands out, and the watcher without it. -/
def get (s : Watcher) : PoolConn × Watcher :=
  let (online,pool) := s.pool.get s.created
  if s.pool.connections.entries = [] then
    (online,{s.setObject online {} with pool := pool, created := s.created + 1})
  else (online,{s with pool := pool})

/-- `conn` is the connection of `online` for as long as `run` watches. An exception of a statement
ends the thread. `lost` is what `PQconsumeInput` finds. -/
def step (s : Watcher) : Action → Option Watcher
  | .take =>
    match s.phase with
    | .top =>
      let (online,s) := s.get
      some {s with phase := .prepare online (s.objects online.id).pqSocket preparation}
    | _ => none
  | .statement first second =>
    match s.phase with
    | .prepare online sock (sql :: rest) =>
      match sql.call first second (s.objects online.id) with
      | (db,true) => some {s.setObject online db with phase := .prepare online sock rest}
      | (db,false) => some {s.setObject online db with phase := .terminated}
    | _ => none
  | .watch =>
    match s.phase with
    | .prepare online sock [] => some {s with phase := .watch online sock}
    | _ => none
  | .select failed lost =>
    match s.phase with
    | .watch online _ =>
      if failed then some {s with phase := .leave online}
      else if lost then
        some (s.setObject online
          {conn := (s.objects online.id).conn.map fun conn => {conn with socket := -1}})
      else some s
    | _ => none
  | .reload now =>
    match s.phase with
    | .watch online _ => some {s with pool := s.pool.back now online, phase := .top}
    | .leave online => some {s with pool := s.pool.back now online, phase := .top}
    | _ => none
  | .deleteOlderThen time threshold reached =>
    some {s with pool := s.pool.deleteOlderThen time threshold reached}
  | .setConnectionString connectionString =>
    some {s with pool := s.pool.setConnectionString connectionString}

/-- `select` waits on the socket of the connection that listens and is read. -/
def Right (s : Watcher) : Prop :=
  match s.phase with
  | .watch online sock =>
    ∃ conn, (s.objects online.id).conn = some conn ∧ sock = conn.socket ∧ 0 ≤ sock ∧
      ∀ sql ∈ listens, sql.text ∈ conn.executed
  | _ => True

/-- The first try keeps the connection. -/
def Kept (first : Try) : SqlCall → Prop
  | .exec _ => first.reply = .expected ∨ first.reply = .other ∧ first.ping.1.reply = .expected
  | .query _ => first.reply = .expected

instance (first : Try) (sql : SqlCall) : Decidable (Kept first sql) := by
  unfold Kept
  split <;> infer_instance

/-- The connection taken is open already, no statement that goes through closes it on its way, and
it is not lost during the watch. -/
def Steady (s : Watcher) : Action → Prop
  | .take => 0 ≤ (s.get.2.objects s.get.1.id).pqSocket
  | .statement first second =>
    match s.phase with
    | .prepare _ _ (sql :: _) => Kept first sql ∨ second.reply ≠ .expected
    | _ => True
  | .select failed lost => failed = true ∨ lost = false
  | _ => True

instance (s : Watcher) (action : Action) : Decidable (s.Steady action) := by
  unfold Steady
  split
  · infer_instance
  · split <;> infer_instance
  · infer_instance
  · infer_instance

end Watcher

/-- The same connection, over which more was executed. -/
structure PGconn.Continues (conn later : PGconn) : Prop where
  socket : later.socket = conn.socket
  executed : conn.executed ⊆ later.executed

theorem PGconn.Continues.trans {conn middle later : PGconn} (first : conn.Continues middle)
    (second : middle.Continues later) : conn.Continues later :=
  ⟨second.socket.trans first.socket,List.Subset.trans first.executed second.executed⟩

theorem exec_unexpected (conn : PGconn) {reply : Reply} (unexpected : reply ≠ .expected)
    (squery : String) : (conn.exec reply squery).2 = false := by
  unfold PGconn.exec
  split
  · rfl
  · cases reply with
    | expected => exact absurd rfl unexpected
    | other => rfl
    | lost => rfl

theorem exec_expected {conn : PGconn} (usable : 0 ≤ conn.socket) (squery : String) :
    ∃ later, conn.exec .expected squery = (later,true) ∧ conn.Continues later ∧
      squery ∈ later.executed := by
  have present : ¬conn.socket < 0 := by omega
  exact ⟨{conn with executed := conn.executed ++ [squery]},by simp [PGconn.exec,present],
    ⟨rfl,List.subset_append_left _ _⟩,by simp⟩

theorem exec_other {conn : PGconn} (usable : 0 ≤ conn.socket) (squery : String) :
    conn.exec .other squery = (conn,false) := by
  have present : ¬conn.socket < 0 := by omega
  simp [PGconn.exec,present]

namespace BDb

theorem attempts_true {ρ : Type} {attempt : BDb → ρ → BDb × Bool} {first second : ρ} {db after : BDb}
    (called : attempts attempt first second db = (after,true)) :
    attempt db first = (after,true) ∨
      (attempt db first).2 = false ∧ attempt (attempt db first).1 second = (after,true) := by
  unfold attempts at called
  split at called
  next ran => exact .inl (ran.trans called)
  next ran =>
    split at called
    · exact .inr (by simpa [ran] using called)
    · cases called

theorem queryTry_unexpected (db : BDb) {sending : Sending} (unexpected : sending.reply ≠ .expected)
    (squery : String) : (queryTry squery db sending).2 = false := by
  unfold queryTry
  split
  · rfl
  next conn _ =>
    have failed := exec_unexpected conn unexpected squery
    split
    next ran => rw [ran] at failed; cases failed
    next => rfl

theorem execTry_unexpected (db : BDb) {trial : Try} (unexpected : trial.reply ≠ .expected)
    (squery : String) : (execTry squery db trial).2 = false := by
  unfold execTry
  split
  · rfl
  next conn _ =>
    have failed := exec_unexpected conn unexpected squery
    split
    next ran => rw [ran] at failed; cases failed
    next => split <;> rfl

variable {db : BDb} {conn : PGconn} (here : db.conn = some conn)
include here

theorem connect_here (descriptor : Option Nat) : db.connect descriptor = some conn := by
  simp [connect,here]

variable (usable : 0 ≤ conn.socket)
include usable

theorem queryTry_expected {sending : Sending} (expected : sending.reply = .expected) (squery : String) :
    ∃ later, queryTry squery db sending = ({conn := some later},true) ∧ conn.Continues later ∧
      squery ∈ later.executed := by
  obtain ⟨later,ran,continues,executed⟩ := exec_expected usable squery
  exact ⟨later,by simp [queryTry,connect_here here,expected,ran],continues,executed⟩

theorem execTry_expected {trial : Try} (expected : trial.reply = .expected) (squery : String) :
    ∃ later, execTry squery db trial = ({conn := some later},true) ∧ conn.Continues later ∧
      squery ∈ later.executed := by
  obtain ⟨later,ran,continues,executed⟩ := exec_expected usable squery
  exact ⟨later,by simp [execTry,connect_here here,expected,ran],continues,executed⟩

/-- An error whose `ping` is answered leaves the connection. -/
theorem execTry_pinged {trial : Try} (other : trial.reply = .other)
    (answered : trial.ping.1.reply = .expected) (squery : String) :
    ∃ later, execTry squery db trial = ({conn := some later},false) ∧ conn.Continues later := by
  have same : ({conn := some conn} : BDb).conn = some conn := rfl
  obtain ⟨later,pinged,continues,-⟩ := queryTry_expected same usable answered "SELECT 9 as result"
  refine ⟨later,?_,continues⟩
  simp [execTry,connect_here here,other,exec_other usable,ping,query,attempts,pinged]

end BDb

/-- A call that returns left the connection it was sent over in use, with its statement executed. -/
def SqlCall.Sent (conn : PGconn) (sql : SqlCall) (after : BDb) : Prop :=
  ∃ later, after.conn = some later ∧ conn.Continues later ∧ sql.text ∈ later.executed

theorem query_sent {db after : BDb} {conn : PGconn} (here : db.conn = some conn)
    (usable : 0 ≤ conn.socket) (squery : String) {first second : Sending}
    (keeps : first.reply = .expected ∨ second.reply ≠ .expected)
    (called : db.query squery first second = (after,true)) : (SqlCall.query squery).Sent conn after := by
  have ending := BDb.attempts_true called
  by_cases expected : first.reply = .expected
  · obtain ⟨later,ran,continues,executed⟩ := BDb.queryTry_expected here usable expected squery
    have after_eq : after = {conn := some later} := by simpa [ran,eq_comm] using ending
    exact ⟨later,by rw [after_eq],continues,executed⟩
  · have failed := BDb.queryTry_unexpected db expected squery
    have again (db : BDb) := BDb.queryTry_unexpected db (keeps.resolve_left expected) squery
    rcases ending with ran | ⟨-,ran⟩
    · rw [ran] at failed
      cases failed
    · have contrary := again (BDb.queryTry squery db first).1
      rw [ran] at contrary
      cases contrary

theorem exec_sent {db after : BDb} {conn : PGconn} (here : db.conn = some conn)
    (usable : 0 ≤ conn.socket) (squery : String) {first second : Try}
    (keeps : Watcher.Kept first (.exec squery) ∨ second.reply ≠ .expected)
    (called : db.exec squery first second = (after,true)) : (SqlCall.exec squery).Sent conn after := by
  have ending := BDb.attempts_true called
  by_cases expected : first.reply = .expected
  · obtain ⟨later,ran,continues,executed⟩ := BDb.execTry_expected here usable expected squery
    have after_eq : after = {conn := some later} := by simpa [ran,eq_comm] using ending
    exact ⟨later,by rw [after_eq],continues,executed⟩
  · have failed := BDb.execTry_unexpected db expected squery
    obtain ⟨-,ran⟩ := ending.resolve_left fun ran => by rw [ran] at failed; cases failed
    -- the second try answers, so the first one kept the connection
    have answered : second.reply = .expected := by
      by_contra unexpected
      have contrary := BDb.execTry_unexpected (BDb.execTry squery db first).1 unexpected squery
      rw [ran] at contrary
      cases contrary
    obtain ⟨other,pinged⟩ := (keeps.resolve_right (not_not.mpr answered)).resolve_left expected
    obtain ⟨middle,tried,continues⟩ := BDb.execTry_pinged here usable other pinged squery
    rw [tried] at ran
    have usable' : 0 ≤ middle.socket := by rw [continues.socket]; exact usable
    obtain ⟨later,ran',continues',executed⟩ := BDb.execTry_expected rfl usable' answered squery
    rw [ran'] at ran
    have after_eq := (Prod.mk.inj ran).1
    exact ⟨later,by rw [← after_eq],continues.trans continues',executed⟩

theorem call_sent {db after : BDb} {conn : PGconn} (here : db.conn = some conn)
    (usable : 0 ≤ conn.socket) (sql : SqlCall) {first second : Try}
    (keeps : Watcher.Kept first sql ∨ second.reply ≠ .expected)
    (called : sql.call first second db = (after,true)) : sql.Sent conn after := by
  cases sql with
  | exec squery => exact exec_sent here usable squery keeps called
  | query squery => exact query_sent here usable squery keeps called

namespace Watcher

/-- The socket read is that of the connection in use, which has executed what was sent so far. -/
def Ready (s : Watcher) : Prop :=
  match s.phase with
  | .prepare online sock rest =>
    ∃ conn, (s.objects online.id).conn = some conn ∧ sock = conn.socket ∧ 0 ≤ sock ∧
      ∀ sql ∈ listens, sql ∈ rest ∨ sql.text ∈ conn.executed
  | .watch _ _ => s.Right
  | _ => True

theorem ready_right {s : Watcher} (ready : s.Ready) : s.Right := by
  cases phase : s.phase <;> simp_all [Ready,Right]

@[simp] theorem setObject_objects (s : Watcher) (online : PoolConn) (db : BDb) :
    (s.setObject online db).objects online.id = db := by
  simp [setObject]

theorem pqSocket_open {db : BDb} (usable : 0 ≤ db.pqSocket) :
    ∃ conn, db.conn = some conn ∧ db.pqSocket = conn.socket := by
  cases here : db.conn with
  | none => simp [BDb.pqSocket,here] at usable
  | some conn => exact ⟨conn,rfl,by simp [BDb.pqSocket,here]⟩

/-- What a step can do; the last two actions change the pool alone. -/
theorem step_cases {s next : Watcher} {action : Action} (stepped : s.step action = some next) :
    (action = .take ∧ s.phase = .top ∧
        next = {s.get.2 with
          phase := .prepare s.get.1 (s.get.2.objects s.get.1.id).pqSocket preparation}) ∨
      (∃ first second online sock sql rest db going, action = .statement first second ∧
        s.phase = .prepare online sock (sql :: rest) ∧
        sql.call first second (s.objects online.id) = (db,going) ∧
        next = {s.setObject online db with
          phase := if going then .prepare online sock rest else .terminated}) ∨
      (∃ online sock, action = .watch ∧ s.phase = .prepare online sock [] ∧
        next = {s with phase := .watch online sock}) ∨
      (∃ lost online, action = .select true lost ∧ next = {s with phase := .leave online}) ∨
      (action = .select false false ∧ next = s) ∨
      (∃ online sock, action = .select false true ∧ s.phase = .watch online sock ∧
        next = s.setObject online
          {conn := (s.objects online.id).conn.map fun conn => {conn with socket := -1}}) ∨
      (∃ now pool, action = .reload now ∧ next = {s with pool := pool,phase := .top}) ∨
      ∃ pool, next = {s with pool := pool} ∧
        (s.pool.connections.entries = [] → pool.connections.entries = []) := by
  cases action with
  | take =>
    cases phase : s.phase <;> simp only [step,phase,reduceCtorEq] at stepped
    cases Option.some.inj stepped
    exact .inl ⟨rfl,rfl,rfl⟩
  | statement first second =>
    simp only [step] at stepped
    split at stepped
    next online sock sql rest phase =>
      split at stepped
      next db called =>
        cases Option.some.inj stepped
        exact .inr (.inl ⟨first,second,online,sock,sql,rest,db,true,rfl,phase,called,rfl⟩)
      next db called =>
        cases Option.some.inj stepped
        exact .inr (.inl ⟨first,second,online,sock,sql,rest,db,false,rfl,phase,called,rfl⟩)
    next => contradiction
  | watch =>
    simp only [step] at stepped
    split at stepped
    next online sock phase =>
      cases Option.some.inj stepped
      exact .inr (.inr (.inl ⟨online,sock,rfl,phase,rfl⟩))
    next => contradiction
  | select failed lost =>
    simp only [step] at stepped
    split at stepped
    next online sock phase =>
      cases failed with
      | true =>
        cases Option.some.inj stepped
        exact .inr (.inr (.inr (.inl ⟨lost,online,rfl,rfl⟩)))
      | false =>
        cases lost with
        | false =>
          cases Option.some.inj stepped
          exact .inr (.inr (.inr (.inr (.inl ⟨rfl,rfl⟩))))
        | true =>
          cases Option.some.inj stepped
          exact .inr (.inr (.inr (.inr (.inr (.inl ⟨online,sock,rfl,phase,rfl⟩)))))
    next => contradiction
  | reload now =>
    simp only [step] at stepped
    split at stepped
    next =>
      cases Option.some.inj stepped
      exact .inr (.inr (.inr (.inr (.inr (.inr (.inl ⟨now,_,rfl,rfl⟩))))))
    next =>
      cases Option.some.inj stepped
      exact .inr (.inr (.inr (.inr (.inr (.inr (.inl ⟨now,_,rfl,rfl⟩))))))
    next => contradiction
  | deleteOlderThen time threshold reached =>
    cases Option.some.inj stepped
    refine .inr (.inr (.inr (.inr (.inr (.inr (.inr ⟨_,rfl,?_⟩))))))
    intro empty
    simp [DbPool.deleteOlderThen,SortedMap.filter,empty]
  | setConnectionString connectionString =>
    cases Option.some.inj stepped
    refine .inr (.inr (.inr (.inr (.inr (.inr (.inr ⟨_,rfl,?_⟩))))))
    intro empty
    unfold DbPool.setConnectionString
    split
    · exact empty
    · rfl

theorem step_ready {s next : Watcher} {action : Action} (ready : s.Ready)
    (steady : s.Steady action) (stepped : s.step action = some next) : next.Ready := by
  rcases step_cases stepped with ⟨rfl,_,rfl⟩ | ⟨first,second,online,sock,sql,rest,db,going,rfl,phase,called,rfl⟩ |
    ⟨online,sock,rfl,phase,rfl⟩ | ⟨_,_,_,rfl⟩ | ⟨_,rfl⟩ | ⟨_,_,rfl,_⟩ | ⟨_,_,_,rfl⟩ | ⟨_,rfl,_⟩
  · obtain ⟨conn,here,socket⟩ := pqSocket_open steady
    refine ⟨conn,here,socket,steady,?_⟩
    intro sql member
    exact .inl (by simp [preparation,member])
  · obtain ⟨conn,here,rfl,usable,sent⟩ : ∃ conn, (s.objects online.id).conn = some conn ∧
        sock = conn.socket ∧ 0 ≤ sock ∧ ∀ listen ∈ listens, listen ∈ sql :: rest ∨
          listen.text ∈ conn.executed := by simpa only [Ready,phase] using ready
    have keeps : Kept first sql ∨ second.reply ≠ .expected := by simpa [Steady,phase] using steady
    cases going with
    | false => trivial
    | true =>
      obtain ⟨later,after,continues,executed⟩ := call_sent here usable sql keeps called
      refine ⟨later,by simpa using after,continues.socket.symm,usable,?_⟩
      intro listen member
      rcases sent listen member with waits | done
      · rcases List.mem_cons.mp waits with rfl | later
        · exact .inr executed
        · exact .inl later
      · exact .inr (continues.executed done)
  · obtain ⟨conn,here,socket,usable,sent⟩ : ∃ conn, (s.objects online.id).conn = some conn ∧
        sock = conn.socket ∧ 0 ≤ sock ∧ ∀ listen ∈ listens, listen ∈ [] ∨
          listen.text ∈ conn.executed := by simpa only [Ready,phase] using ready
    exact ⟨conn,here,socket,usable,fun sql member => by simpa using sent sql member⟩
  · trivial
  · exact ready
  · simp [Steady] at steady
  · trivial
  · exact ready

/-- Over connections that stay open from before `PQsocket` to the end of the watch, `select` always
waits on the connection that listens. -/
theorem watches_listener (start s : Watcher) (top : start.phase = .top) (run : Run step Steady start s) :
    s.Right := by
  refine ready_right (run.invariant (by simp [Ready,top]) ?_)
  intro s next action _ ready steady stepped
  exact step_ready ready steady stepped

/-- A pool that has kept one connection, open on descriptor 7. -/
def used : Watcher where
  pool := {connectionString := "online", connections := SortedMap.empty.insert 0 ⟨0,"online"⟩}
  created := 1
  objects _ := {conn := some {socket := 7}}

/-- Every statement is answered at its first try; descriptor 7 is the one a connection would get. -/
def answered : Action :=
  let sending : Sending := ⟨some 7,.expected⟩
  .statement ⟨sending,sending,sending⟩ ⟨sending,sending,sending⟩

def firstRound : List Action :=
  .take :: (List.replicate 6 answered ++ [.watch,.select false false])

theorem used_watches : ∃ s : Watcher, s.phase = .watch ⟨0,"online"⟩ 7 ∧ s.Right := by
  obtain ⟨s,run,good⟩ := exists_run step Steady used (fun s => s.phase == .watch ⟨0,"online"⟩ 7)
    firstRound (by decide +kernel)
  exact ⟨s,by simpa using good,watches_listener used s rfl run⟩

/-- Until its first reload `run` has the socket of an object that had no connection. -/
def Blind (s : Watcher) : Prop :=
  match s.phase with
  | .top => s.pool.connections.entries = []
  | .prepare _ sock _ => sock = -1
  | .watch _ sock => sock = -1
  | _ => True

theorem get_empty {s : Watcher} (empty : s.pool.connections.entries = []) :
    (s.get.2.objects s.get.1.id).pqSocket = -1 := by
  simp [get,empty,BDb.pqSocket]

theorem step_blind {s next : Watcher} {action : Action} (blind : s.Blind)
    (first : ∀ now, action ≠ .reload now) (stepped : s.step action = some next) : next.Blind := by
  rcases step_cases stepped with ⟨_,phase,rfl⟩ | ⟨_,_,online,sock,sql,rest,db,going,_,phase,_,rfl⟩ |
    ⟨online,sock,_,phase,rfl⟩ | ⟨_,_,_,rfl⟩ | ⟨_,rfl⟩ | ⟨online,sock,_,phase,rfl⟩ | ⟨now,_,reload,_⟩ |
    ⟨pool,rfl,empties⟩
  · exact get_empty (by simpa [Blind,phase] using blind)
  · have unread : sock = -1 := by simpa [Blind,phase] using blind
    cases going with
    | false => trivial
    | true => exact unread
  · simpa [Blind,phase] using blind
  · trivial
  · exact blind
  · simpa [Blind,setObject,phase] using blind
  · exact absurd reload (first now)
  · cases phase : s.phase with
    | top => simpa [Blind,phase] using empties (by simpa [Blind,phase] using blind)
    | prepare => simpa [Blind,phase] using blind
    | watch => simpa [Blind,phase] using blind
    | leave => simp [Blind]
    | terminated => simp [Blind]

/-- From an empty pool every `select` before the first reload is called on descriptor -1. -/
theorem first_watch_blind {start s : Watcher} (top : start.phase = .top)
    (empty : start.pool.connections.entries = [])
    (run : Run step (fun _ action => ∀ now, action ≠ .reload now) start s) {online : PoolConn} {sock : Int}
    (watching : s.phase = .watch online sock) : sock = -1 ∧ ¬s.Right := by
  have blind : s.Blind := run.invariant (by simpa [Blind,top] using empty)
    fun _ _ _ _ blind first stepped => step_blind blind first stepped
  have unread : sock = -1 := by simpa [Blind,watching] using blind
  refine ⟨unread,?_⟩
  intro right
  obtain ⟨conn,-,-,negative,-⟩ := by simpa only [Right,watching] using right
  omega

/-- A new object has no connection when its socket is read. -/
theorem new_connection_blind : ¬∀ s : Watcher,
    Run step Always {pool := {connectionString := "online"}} s → s.Right := by
  intro right
  obtain ⟨s,run,blind⟩ := exists_run step Always {pool := {connectionString := "online"}}
    (fun s : Watcher => s.phase == .watch ⟨0,"online"⟩ (-1)) firstRound (by decide +kernel)
  have phase : s.phase = .watch ⟨0,"online"⟩ (-1) := by simpa using blind
  obtain ⟨conn,-,-,negative,-⟩ := by simpa only [Right,phase] using right s run
  omega

end Watcher

end Call45Aggr
