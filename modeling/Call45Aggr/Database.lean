/-! `BDb`: a connection, the statements sent over it, and what its retries make of lost
connections. The server is the one session the client has; what happens to each
statement on its way is an input. -/
namespace Call45Aggr

/-- What a statement is to the server. A `select` reads only; `rows` tells whether the
answer to another one carries rows. -/
inductive Kind
  | begin
  | commit
  | rollback
  | select
  | plain (rows : Bool)
  deriving DecidableEq

structure Statement (δ : Type) where
  kind : Kind
  effect : δ → δ

structure Tx (δ : Type) where
  work : δ
  aborted : Bool := false
  deriving DecidableEq

/-- The connection as the client holds it: none, one whose session has ended, or one
with a session and the transaction open in it. -/
inductive Conn (δ : Type)
  | closed
  | dead
  | live (tx : Option (Tx δ))
  deriving DecidableEq

/-- `direct` counts the statements that took effect with no transaction open. -/
structure Db (δ : Type) where
  committed : δ
  conn : Conn δ
  direct : Nat := 0

/-- How one statement fares: answered, refused with an error, or the connection is lost
before or after the server executes it. -/
inductive Fate
  | answered
  | refused
  | lostBefore
  | lostAfter
  deriving DecidableEq

/-- How `connect` fares: `failed` throws a `DbException`, `locked` is the advisory lock
held by another, which throws an `Exception`. -/
inductive Connecting
  | ok
  | failed
  | locked
  deriving DecidableEq

inductive Status
  | commandOk
  | tuplesOk
  | error
  deriving DecidableEq

/-- How a try of a retried call ends: it returns, or throws what the loop catches, or
what it does not. -/
inductive Attempt
  | done
  | caught
  | thrown
  deriving DecidableEq

structure Request where
  connect : Connecting
  statement : Fate

/-- One try of `exec`, with both tries of the `query` its `ping` makes. -/
structure Trial where
  connect : Connecting
  statement : Fate
  ping : Request × Request

namespace Db
variable {δ : Type}

/-- The server executes a statement. In an aborted transaction only the end of the
transaction is accepted. -/
def run (db : Db δ) (q : Statement δ) : Option (Tx δ) → Db δ × Status
  | none =>
    match q.kind with
    | .begin => ({db with conn := .live (some {work := q.effect db.committed})},.commandOk)
    | .select => (db,.tuplesOk)
    | .plain rows =>
      ({db with committed := q.effect db.committed,direct := db.direct + 1},
        if rows then .tuplesOk else .commandOk)
    | .commit | .rollback => ({db with committed := q.effect db.committed},.commandOk)
  | some tx =>
    match q.kind with
    | .commit =>
      ({db with
        committed := if tx.aborted then q.effect db.committed else q.effect tx.work
        conn := .live none},.commandOk)
    | .rollback => ({db with committed := q.effect db.committed,conn := .live none},.commandOk)
    | .begin =>
      if tx.aborted then (db,.error)
      else ({db with conn := .live (some {tx with work := q.effect tx.work})},.commandOk)
    | .select => if tx.aborted then (db,.error) else (db,.tuplesOk)
    | .plain rows =>
      if tx.aborted then (db,.error)
      else ({db with conn := .live (some {tx with work := q.effect tx.work})},
        if rows then .tuplesOk else .commandOk)

/-- An error aborts the transaction; one in its end ends it undone. -/
def refuse (db : Db δ) (q : Statement δ) (tx : Option (Tx δ)) : Db δ :=
  match q.kind with
  | .commit | .rollback => {db with conn := .live none}
  | _ => {db with conn := .live (tx.map fun tx => {tx with aborted := true})}

/-- A session that is lost takes its transaction with it. -/
def pqExec (db : Db δ) (fate : Fate) (q : Statement δ) : Db δ × Status :=
  match db.conn with
  | .live tx =>
    match fate with
    | .answered => db.run q tx
    | .refused => (db.refuse q tx,.error)
    | .lostBefore => ({db with conn := .dead},.error)
    | .lostAfter => ({(db.run q tx).1 with conn := .dead},.error)
  | _ => (db,.error)

def connected (db : Db δ) : Bool :=
  match db.conn with
  | .closed => false
  | _ => true

def connect (db : Db δ) (connecting : Connecting) : Db δ × Connecting :=
  if db.connected then (db,.ok)
  else
    match connecting with
    | .ok => ({db with conn := .live none},.ok)
    | failure => (db,failure)

def disconnect (db : Db δ) : Db δ := {db with conn := .closed}

/-- The loop of `query` and `exec`: two tries on an old connection, one on a new. -/
def retry {ρ : Type} (attempt : Db δ → ρ → Db δ × Attempt) (first second : ρ) (db : Db δ) :
    Db δ × Attempt :=
  match attempt db first with
  | (next,.caught) => if db.connected then attempt next second else (next,.caught)
  | other => other

def queryTry (q : Statement δ) (db : Db δ) (request : Request) : Db δ × Attempt :=
  match db.connect request.connect with
  | (db,.ok) =>
    match db.pqExec request.statement q with
    | (db,.tuplesOk) => (db,.done)
    | (db,_) => (db.disconnect,.caught)
  | (db,.failed) => (db,.caught)
  | (db,.locked) => (db,.thrown)

def query (q : Statement δ) (first second : Request) (db : Db δ) : Db δ × Attempt :=
  retry (queryTry q) first second db

/-- `SELECT 9 as result` -/
def select9 : Statement δ := ⟨.select,id⟩

def ping (requests : Request × Request) (db : Db δ) : Db δ × Bool :=
  match query select9 requests.1 requests.2 db with
  | (db,.done) => (db,true)
  | (db,_) => (db,false)

def recover (requests : Request × Request) (db : Db δ) : Db δ :=
  match ping requests db with
  | (db,true) => db
  | (db,false) => db.disconnect

def execTry (q : Statement δ) (db : Db δ) (trial : Trial) : Db δ × Attempt :=
  match db.connect trial.connect with
  | (db,.ok) =>
    match db.pqExec trial.statement q with
    | (db,.commandOk) => (db,.done)
    | (db,_) => (db.recover trial.ping,.caught)
  | (db,.failed) => (db,.caught)
  | (db,.locked) => (db,.thrown)

def exec (q : Statement δ) (first second : Trial) (db : Db δ) : Db δ × Attempt :=
  retry (execTry q) first second db

end Db

def Request.opens (request : Request) : Bool :=
  request.connect = .ok && request.statement = .answered

def Executed (trial : Trial) : Prop := trial.statement = .answered ∨ trial.statement = .lostAfter

instance : DecidablePred Executed := fun _ => inferInstanceAs (Decidable (_ ∨ _))

namespace Db
variable {δ : Type}

/-- The session takes a query, and the first one of a `ping` is answered. -/
def keeps (db : Db δ) (requests : Request × Request) : Bool :=
  match db.conn with
  | .live none => requests.1.statement = .answered
  | .live (some tx) => !tx.aborted && requests.1.statement = .answered
  | _ => false

theorem select_fails {db : Db δ} {requests : Request × Request} (connected : db.connected = true)
    (lost : db.keeps requests = false) :
    queryTry select9 db requests.1 = ({db with conn := .closed},.caught) := by
  cases shape : db.conn with
  | closed => simp [Db.connected,shape] at connected
  | dead => simp [queryTry,connect,connected,pqExec,shape,disconnect]
  | live tx =>
    cases fate : requests.1.statement with
    | answered =>
      cases tx with
      | none => simp [keeps,shape,fate] at lost
      | some tx =>
        have aborted : tx.aborted = true := by simpa [keeps,shape,fate] using lost
        simp [queryTry,connect,connected,pqExec,shape,fate,run,select9,aborted,disconnect]
    | refused => simp [queryTry,connect,connected,pqExec,shape,fate,refuse,select9,disconnect]
    | lostBefore => simp [queryTry,connect,connected,pqExec,shape,fate,disconnect]
    | lostAfter =>
      have same : (db.run select9 tx).1 = db := by
        cases tx with
        | none => rfl
        | some tx => simp only [run,select9]; split <;> rfl
      simp [queryTry,connect,connected,pqExec,shape,fate,same,disconnect]

theorem select_kept {db : Db δ} {requests : Request × Request} (kept : db.keeps requests = true) :
    queryTry select9 db requests.1 = (db,.done) := by
  cases shape : db.conn with
  | closed => simp [keeps,shape] at kept
  | dead => simp [keeps,shape] at kept
  | live tx =>
    cases tx with
    | none =>
      have answered : requests.1.statement = .answered := by simpa [keeps,shape] using kept
      simp [queryTry,connect,connected,pqExec,shape,answered,run,select9]
    | some tx =>
      have both : tx.aborted = false ∧ requests.1.statement = .answered := by
        simpa [keeps,shape] using kept
      simp [queryTry,connect,connected,pqExec,shape,both.1,both.2,run,select9]

theorem recover_eq (db : Db δ) (requests : Request × Request) (connected : db.connected = true) :
    db.recover requests =
      if db.keeps requests then db
      else {db with conn := if requests.2.opens then .live none else .closed} := by
  cases kept : db.keeps requests with
  | true => simp [recover,ping,query,retry,select_kept kept]
  | false =>
    have failed := select_fails connected kept
    have again : queryTry select9 {db with conn := .closed} requests.2 =
        if requests.2.opens then ({db with conn := .live none},.done)
        else ({db with conn := .closed},match requests.2.connect with | .locked => .thrown | _ => .caught) := by
      cases opening : requests.2.connect with
      | ok =>
        cases fate : requests.2.statement <;>
          simp [queryTry,connect,Db.connected,pqExec,run,refuse,select9,disconnect,Request.opens,opening,fate]
      | failed => simp [queryTry,connect,Db.connected,Request.opens,opening]
      | locked => simp [queryTry,connect,Db.connected,Request.opens,opening]
    simp only [recover,ping,query,retry,failed,connected,again,if_true]
    cases opens : requests.2.opens with
    | true => simp
    | false => cases requests.2.connect <;> simp [disconnect]

theorem recover_lost {db : Db δ} {requests : Request × Request} (connected : db.connected = true)
    (lost : db.keeps requests = false) :
    db.recover requests = {db with conn := if requests.2.opens then .live none else .closed} := by
  rw [recover_eq db requests connected,lost]
  rfl

theorem conn_closed {db : Db δ} (unconnected : db.connected = false) : db.conn = .closed := by
  cases shape : db.conn <;> simp [Db.connected,shape] at unconnected ⊢

theorem pqExec_connected {db : Db δ} (connected : db.connected = true) (fate : Fate) (q : Statement δ) :
    (db.pqExec fate q).1.connected = true := by
  cases shape : db.conn with
  | closed => simp [Db.connected,shape] at connected
  | dead => simp [Db.pqExec,shape,Db.connected]
  | live tx =>
    obtain ⟨kind,effect⟩ := q
    cases tx with
    | none => cases fate <;> cases kind <;> simp [Db.pqExec,shape,run,refuse,Db.connected]
    | some tx =>
      cases aborted : tx.aborted <;> cases fate <;> cases kind <;>
        simp [Db.pqExec,shape,run,refuse,Db.connected,aborted]

theorem execTry_connected {db : Db δ} (connected : db.connected = true) (q : Statement δ)
    (trial : Trial) : execTry q db trial =
      if (db.pqExec trial.statement q).2 = .commandOk then ((db.pqExec trial.statement q).1,.done)
      else ((db.pqExec trial.statement q).1.recover trial.ping,.caught) := by
  simp only [execTry,Db.connect,connected,if_true]
  cases db.pqExec trial.statement q with
  | mk next status => cases status <;> simp

theorem execTry_opened {db : Db δ} (idle : db.conn = .closed ∨ db.conn = .live none) {trial : Trial}
    (opened : db.conn = .live none ∨ trial.connect = .ok) (q : Statement δ) :
    execTry q db trial = execTry q {db with conn := .live none} trial := by
  obtain closed | live := idle
  · have unconnected : db.connected = false := by simp [Db.connected,closed]
    have connects : trial.connect = .ok := by simpa [closed] using opened
    have live : ({db with conn := .live none} : Db δ).connected = true := rfl
    simp [execTry,connect,unconnected,connects,live]
  · rw [← live]

theorem execTry_unopened {db : Db δ} (idle : db.conn = .closed ∨ db.conn = .live none) {trial : Trial}
    (unopened : ¬(db.conn = .live none ∨ trial.connect = .ok)) (q : Statement δ) :
    (execTry q db trial).1 = db ∧ (execTry q db trial).2 ≠ .done := by
  obtain closed | live := idle
  · have unconnected : db.connected = false := by simp [Db.connected,closed]
    cases connecting : trial.connect with
    | ok => exact absurd (.inr connecting) unopened
    | failed => simp [execTry,connect,unconnected,connecting]
    | locked => simp [execTry,connect,unconnected,connecting]
  · exact absurd (.inl live) unopened

theorem exec_unconnected {db : Db δ} (closed : db.connected = false) (q : Statement δ)
    (first second : Trial) : exec q first second db = execTry q db first := by
  simp only [exec,retry,closed]
  cases execTry q db first with
  | mk next attempt => cases attempt <;> rfl

theorem exec_again {db next : Db δ} (connected : db.connected = true) {q : Statement δ} {first : Trial}
    (caught : execTry q db first = (next,.caught)) (second : Trial) :
    exec q first second db = execTry q next second := by
  simp [exec,retry,caught,connected]

theorem exec_connected {db : Db δ} (connected : db.connected = true) (q : Statement δ)
    (first second : Trial) : exec q first second db =
      if (db.pqExec first.statement q).2 = .commandOk then ((db.pqExec first.statement q).1,.done)
      else execTry q ((db.pqExec first.statement q).1.recover first.ping) second := by
  by_cases answered : (db.pqExec first.statement q).2 = .commandOk
  · simp [exec,retry,execTry_connected connected,answered]
  · simp [exec,retry,execTry_connected connected,answered,connected]

theorem execTry_preserves {Kept : Db δ → Prop} {q : Statement δ}
    (sent : ∀ db fate, Kept db → Kept (db.pqExec fate q).1)
    (reconnected : ∀ db, Kept db → Kept {db with conn := .live none} ∧ Kept {db with conn := .closed})
    {db : Db δ} (kept : Kept db) (trial : Trial) : Kept (execTry q db trial).1 := by
  have onSession : ∀ db : Db δ, db.connected = true → Kept db → Kept (execTry q db trial).1 := by
    intro db connected kept
    have after := sent db trial.statement kept
    rw [execTry_connected connected]
    split
    · exact after
    · dsimp only
      rw [recover_eq _ _ (pqExec_connected connected _ _)]
      split
      · exact after
      · cases trial.ping.2.opens with
        | true => exact (reconnected _ after).1
        | false => exact (reconnected _ after).2
  cases connected : db.connected with
  | true => exact onSession db connected kept
  | false =>
    have closed := conn_closed connected
    by_cases opened : db.conn = .live none ∨ trial.connect = .ok
    · rw [execTry_opened (.inl closed) opened]
      exact onSession _ rfl (reconnected db kept).1
    · rw [(execTry_unopened (.inl closed) opened q).1]
      exact kept

theorem exec_preserves {Kept : Db δ → Prop} {q : Statement δ}
    (sent : ∀ db fate, Kept db → Kept (db.pqExec fate q).1)
    (reconnected : ∀ db, Kept db → Kept {db with conn := .live none} ∧ Kept {db with conn := .closed})
    {db : Db δ} (kept : Kept db) (first second : Trial) : Kept (exec q first second db).1 := by
  have tried := execTry_preserves sent reconnected kept first
  unfold exec retry
  split
  next next again =>
    have left : Kept next := by simpa [again] using tried
    split
    · exact execTry_preserves sent reconnected left second
    · exact left
  next => exact tried

end Db
end Call45Aggr
