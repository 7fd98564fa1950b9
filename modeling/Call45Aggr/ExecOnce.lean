import Call45Aggr.Database

/-! How often a statement given to `BDb::exec` takes effect. -/
namespace Call45Aggr

def Conn.counting : Conn Unit → Conn Nat
  | .closed => .closed
  | .dead => .dead
  | .live tx => .live (tx.map fun tx => ⟨0,tx.aborted⟩)

namespace Db

/-- The content counts executions of the statement, from none. -/
def counting (conn : Conn Unit) : Db Nat := ⟨0,conn.counting,0⟩

/-- The executions that were not undone; an aborted transaction will be. -/
def standing (db : Db Nat) : Nat :=
  match db.conn with
  | .live (some tx) => if tx.aborted then db.committed else tx.work
  | _ => db.committed

def Clean (db : Db Nat) : Prop :=
  db.committed = 0 ∧ ∀ tx, db.conn = .live (some tx) → tx.work = 0

def counted (kind : Kind) : Statement Nat := ⟨kind,Nat.succ⟩

def Once (result : Db Nat × Attempt) : Prop :=
  (result.2 = .done → result.1.standing = 1) ∧ (result.2 ≠ .done → result.1.standing ≤ 1)

def AppliedOnce (conn : Conn Unit) (kind : Kind) (first second : Trial) : Prop :=
  Once (exec (counted kind) first second (counting conn))

/-- The server executes the statement of the first try so that the effect outlives the
session, and the client does not get the answer it waits for. -/
def Unacknowledged (conn : Conn Unit) (kind : Kind) (first : Trial) : Prop :=
  (first.statement = .lostAfter ∨ first.statement = .answered ∧ kind = .plain true) ∧
  ∃ tx, conn = .live tx ∧ (kind = .commit ∨ kind = .rollback ∨ tx = none ∧ ∃ rows, kind = .plain rows)

/-- The second try has a session to send the statement to. -/
def Reaches (first second : Trial) : Prop :=
  first.statement = .answered ∧ first.ping.1.statement = .answered ∨ first.ping.2.opens = true ∨
    second.connect = .ok

/-- A statement whose answer carries rows is executed twice inside one transaction. -/
def TwiceInside (conn : Conn Unit) (kind : Kind) (first second : Trial) : Prop :=
  (∃ tx, conn = .live (some tx) ∧ tx.aborted = false) ∧ kind = .plain true ∧
  (first.statement = .answered ∧ first.ping.1.statement = .answered) ∧
  second.statement = .answered ∧ second.ping.1.statement = .answered

def Repeats (conn : Conn Unit) (kind : Kind) (first second : Trial) : Prop :=
  Unacknowledged conn kind first ∧ Reaches first second ∧ Executed second ∨
    TwiceInside conn kind first second

theorem standing_recover {db : Db Nat} {requests : Request × Request} (connected : db.connected = true) :
    (db.recover requests).standing = if db.keeps requests then db.standing else db.committed := by
  rw [recover_eq db requests connected]
  split
  · rfl
  · cases requests.2.opens <;> rfl

theorem Clean.standing {db : Db Nat} (clean : db.Clean) : db.standing = 0 := by
  obtain ⟨none,work⟩ := clean
  unfold Db.standing
  split
  next tx shape =>
    split
    · exact none
    · exact work tx shape
  next => exact none

theorem Clean.pqExec {db : Db Nat} (clean : db.Clean) (fate : Fate) (kind : Kind) :
    (db.pqExec fate (counted kind)).1.standing ≤ 1 ∧ (db.pqExec fate (counted kind)).1.committed ≤ 1 ∧
      ((db.pqExec fate (counted kind)).2 = .commandOk →
        (db.pqExec fate (counted kind)).1.standing = 1) := by
  obtain ⟨none,work⟩ := clean
  cases shape : db.conn with
  | closed => simp [Db.pqExec,shape,Db.standing,none]
  | dead => simp [Db.pqExec,shape,Db.standing,none]
  | live tx =>
    cases tx with
    | none =>
      cases fate <;> cases kind <;>
        simp [Db.pqExec,shape,run,refuse,counted,Db.standing,none]
    | some tx =>
      have zero := work tx shape
      cases aborted : tx.aborted <;> cases fate <;> cases kind <;>
        simp [Db.pqExec,shape,run,refuse,counted,Db.standing,none,zero,aborted]

theorem Clean.execTry_connected {db : Db Nat} (clean : db.Clean) (connected : db.connected = true)
    (kind : Kind) (trial : Trial) : Once (execTry (counted kind) db trial) := by
  rw [Db.execTry_connected connected]
  obtain ⟨stands,committed,done⟩ := clean.pqExec trial.statement kind
  split
  next answered => exact ⟨fun _ => done answered,fun _ => stands⟩
  next =>
    refine ⟨by simp,fun _ => ?_⟩
    dsimp only
    rw [standing_recover (pqExec_connected connected _ _)]
    split
    · exact stands
    · exact committed

theorem Clean.execTry {db : Db Nat} (clean : db.Clean) (kind : Kind) (trial : Trial) :
    Once (Db.execTry (counted kind) db trial) := by
  cases connected : db.connected with
  | true => exact clean.execTry_connected connected kind trial
  | false =>
    have closed := conn_closed connected
    by_cases opened : db.conn = .live none ∨ trial.connect = .ok
    · rw [execTry_opened (.inl closed) opened]
      have fresh : Clean {db with conn := .live none} := ⟨clean.1,by simp⟩
      exact fresh.execTry_connected rfl kind trial
    · obtain ⟨same,failed⟩ := execTry_unopened (.inl closed) opened (counted kind)
      refine ⟨fun done => absurd done failed,fun _ => ?_⟩
      rw [same,clean.standing]
      exact Nat.zero_le 1

theorem execTry_idle {db : Db Nat} (one : db.committed = 1) (live : db.conn = .live none) {kind : Kind}
    (lasting : kind = .commit ∨ kind = .rollback ∨ ∃ rows, kind = .plain rows) (trial : Trial) :
    Once (execTry (counted kind) db trial) ↔ ¬Executed trial := by
  have connected : db.connected = true := by simp [Db.connected,live]
  have sent : (db.pqExec trial.statement (counted kind)).1.standing = (if Executed trial then 2 else 1) ∧
      (db.pqExec trial.statement (counted kind)).1.committed = (if Executed trial then 2 else 1) ∧
      ((db.pqExec trial.statement (counted kind)).2 = .commandOk → Executed trial) := by
    cases fate : trial.statement <;> obtain rfl | rfl | ⟨rows,rfl⟩ := lasting <;>
      simp [Executed,fate,pqExec,live,run,refuse,counted,standing,one]
  obtain ⟨stands,commits,executed⟩ := sent
  rw [execTry_connected connected]
  split
  next answered => simp [Once,stands,executed answered]
  next =>
    unfold Once
    dsimp only
    rw [standing_recover (pqExec_connected connected _ _),stands,commits]
    by_cases ran : Executed trial <;> simp [ran]

theorem execTry_again {db : Db Nat} (one : db.committed = 1) (idle : db.conn = .closed ∨ db.conn = .live none)
    {kind : Kind} (lasting : kind = .commit ∨ kind = .rollback ∨ ∃ rows, kind = .plain rows) (trial : Trial) :
    Once (execTry (counted kind) db trial) ↔
      ¬((db.conn = .live none ∨ trial.connect = .ok) ∧ Executed trial) := by
  by_cases opened : db.conn = .live none ∨ trial.connect = .ok
  · have again : Once (execTry (counted kind) {db with conn := .live none} trial) ↔ ¬Executed trial :=
      @execTry_idle {db with conn := .live none} one rfl kind lasting trial
    rw [execTry_opened idle opened,again]
    simp [opened]
  · obtain ⟨same,failed⟩ := execTry_unopened idle opened (counted kind)
    refine iff_of_true ⟨fun done => absurd done failed,fun _ => ?_⟩ (fun sent => opened sent.1)
    rw [same]
    obtain closed | live := idle
    · simp [standing,closed,one]
    · exact absurd (.inl live) opened

theorem first_caught (tx : Option (Tx Unit)) (kind : Kind) (first : Trial)
    (failed : ((counting (.live tx)).pqExec first.statement (counted kind)).2 ≠ .commandOk) :
    let db := ((counting (.live tx)).pqExec first.statement (counted kind)).1
    Unacknowledged (.live tx) kind first ∧ db.committed = 1 ∧
        (db.conn = .dead ∧ first.statement = .lostAfter ∨ db.conn = .live none ∧ first.statement = .answered) ∨
      (¬Unacknowledged (.live tx) kind first ∧ kind = .plain true ∧ first.statement = .answered ∧
        (∃ tx', tx = some tx' ∧ tx'.aborted = false) ∧ db.committed = 0 ∧ db.conn = .live (some ⟨1,false⟩)) ∨
      (¬Unacknowledged (.live tx) kind first ∧ (first.statement = .answered → kind = .plain true →
        ∀ tx', tx = some tx' → tx'.aborted = true) ∧ db.Clean) := by
  obtain _ | ⟨⟨⟩,aborted⟩ := tx
  · cases fate : first.statement <;> obtain _ | _ | _ | _ | ⟨_ | _⟩ := kind <;>
      simp_all [Unacknowledged,Clean,pqExec,counting,Conn.counting,run,refuse,counted]
  · cases aborted <;> cases fate : first.statement <;> obtain _ | _ | _ | _ | ⟨_ | _⟩ := kind <;>
      simp_all [Unacknowledged,Clean,pqExec,counting,Conn.counting,run,refuse,counted]

theorem Clean.recover {db : Db Nat} (clean : db.Clean) (connected : db.connected = true)
    (requests : Request × Request) : (db.recover requests).Clean := by
  rw [recover_eq db requests connected]
  split
  · exact clean
  · refine ⟨clean.1,?_⟩
    cases requests.2.opens <;> simp

theorem clean_counting (conn : Conn Unit) : (counting conn).Clean := by
  refine ⟨rfl,?_⟩
  intro tx shape
  obtain _ | _ | _ | _ := conn <;> simp [counting,Conn.counting] at shape
  rw [← shape]

theorem Unacknowledged.unanswered {tx : Option (Tx Unit)} {kind : Kind} {first : Trial}
    (unacknowledged : Unacknowledged (.live tx) kind first) :
    ((counting (.live tx)).pqExec first.statement (counted kind)).2 ≠ .commandOk := by
  obtain ⟨lost | ⟨answered,rfl⟩,_⟩ := unacknowledged
  · simp [pqExec,counting,Conn.counting,lost]
  · obtain _ | ⟨_,_ | _⟩ := tx <;> simp [pqExec,counting,Conn.counting,answered,run,counted]

theorem TwiceInside.unanswered {tx : Option (Tx Unit)} {kind : Kind} {first second : Trial}
    (twice : TwiceInside (.live tx) kind first second) :
    ((counting (.live tx)).pqExec first.statement (counted kind)).2 ≠ .commandOk := by
  obtain ⟨⟨tx',shape,fine⟩,rfl,⟨answered,_⟩,_⟩ := twice
  obtain rfl : tx = some tx' := by simpa using shape
  simp [pqExec,counting,Conn.counting,answered,run,counted,fine]

/-- One execution stands inside an open transaction, and the second try adds another
where it is answered and the transaction survives. -/
theorem execTry_inside {db : Db Nat} (committed : db.committed = 0) (inside : db.conn = .live (some ⟨1,false⟩))
    (second : Trial) : Once (execTry (counted (.plain true)) db second) ↔
      ¬(second.statement = .answered ∧ second.ping.1.statement = .answered) := by
  have connected : db.connected = true := by simp [Db.connected,inside]
  rw [execTry_connected connected]
  have failed : (db.pqExec second.statement (counted (.plain true))).2 ≠ .commandOk := by
    cases fate : second.statement <;> simp [pqExec,inside,run,counted]
  rw [if_neg failed]
  unfold Once
  dsimp only
  rw [standing_recover (pqExec_connected connected _ _)]
  cases fate : second.statement <;>
    simp [pqExec,inside,run,refuse,counted,keeps,standing,committed]
  split <;> simp_all

theorem Unacknowledged.single {tx : Option (Tx Unit)} {kind : Kind} {first second : Trial}
    (unacknowledged : Unacknowledged (.live tx) kind first) :
    ¬TwiceInside (.live tx) kind first second := by
  intro twice
  obtain ⟨⟨tx',shape,_⟩,rfl,_⟩ := twice
  obtain ⟨_,tx'',same,alone⟩ := unacknowledged
  simp_all

theorem again_iff {db : Db Nat} (connected : db.connected = true) (one : db.committed = 1) {first : Trial}
    (after : db.conn = .dead ∧ first.statement = .lostAfter ∨
      db.conn = .live none ∧ first.statement = .answered) {conn : Conn Unit} {kind : Kind}
    (unacknowledged : Unacknowledged conn kind first) (second : Trial) :
    Once (execTry (counted kind) (db.recover first.ping) second) ↔
      ¬(Reaches first second ∧ Executed second) := by
  have lasting : kind = .commit ∨ kind = .rollback ∨ ∃ rows, kind = .plain rows := by
    obtain ⟨_,_,_,commit | rollback | ⟨_,plain⟩⟩ := unacknowledged
    · exact .inl commit
    · exact .inr (.inl rollback)
    · exact .inr (.inr plain)
  have recovered := recover_eq db first.ping connected
  have committed : (db.recover first.ping).committed = 1 := by
    rw [recovered]
    split <;> exact one
  have session : (db.recover first.ping).conn = .live none ↔
      first.statement = .answered ∧ first.ping.1.statement = .answered ∨ first.ping.2.opens = true := by
    rw [recovered]
    obtain ⟨dead,lost⟩ | ⟨live,answered⟩ := after
    · simp [keeps,dead,lost]
    · by_cases kept : first.ping.1.statement = .answered <;> simp [keeps,live,answered,kept]
  have idle : (db.recover first.ping).conn = .closed ∨ (db.recover first.ping).conn = .live none := by
    rw [recovered]
    obtain ⟨dead,_⟩ | ⟨live,_⟩ := after
    · cases opens : first.ping.2.opens <;> simp [keeps,dead]
    · cases opens : first.ping.2.opens <;> simp [keeps,live] <;> split <;> simp_all
  rw [execTry_again committed idle lasting second,session,Reaches,or_assoc]

theorem inside_iff {db : Db Nat} (connected : db.connected = true) (none : db.committed = 0)
    (inside : db.conn = .live (some ⟨1,false⟩)) {first : Trial} (second : Trial) :
    Once (execTry (counted (.plain true)) (db.recover first.ping) second) ↔
      ¬(first.ping.1.statement = .answered ∧
        second.statement = .answered ∧ second.ping.1.statement = .answered) := by
  have recovered := recover_eq db first.ping connected
  by_cases kept : first.ping.1.statement = .answered
  · have same : db.recover first.ping = db := by simp [recovered,keeps,inside,kept]
    rw [same,execTry_inside none inside]
    simp [kept]
  · have clean : (db.recover first.ping).Clean := by
      rw [recovered]
      refine ⟨by split <;> exact none,?_⟩
      cases opens : first.ping.2.opens <;> simp [keeps,inside,kept]
    simpa [kept] using clean.execTry (.plain true) second

theorem exec_once_iff (conn : Conn Unit) (kind : Kind) (first second : Trial) :
    AppliedOnce conn kind first second ↔ ¬Repeats conn kind first second := by
  have clean := clean_counting conn
  unfold AppliedOnce
  cases conn with
  | closed =>
    rw [exec_unconnected rfl]
    have quiet : ¬Repeats .closed kind first second := by simp [Repeats,Unacknowledged,TwiceInside]
    exact iff_of_true (clean.execTry kind first) quiet
  | dead =>
    have failed : (counting .dead).pqExec first.statement (counted kind) = (counting .dead,.error) := rfl
    rw [exec_connected rfl,failed]
    have quiet : ¬Repeats .dead kind first second := by simp [Repeats,Unacknowledged,TwiceInside]
    exact iff_of_true ((clean.recover rfl first.ping).execTry kind second) quiet
  | live tx =>
    have connected := @pqExec_connected Nat (counting (.live tx)) rfl first.statement (counted kind)
    rw [exec_connected rfl]
    by_cases answered : ((counting (.live tx)).pqExec first.statement (counted kind)).2 = .commandOk
    · rw [if_pos answered]
      refine iff_of_true ⟨fun _ => (clean.pqExec _ _).2.2 answered,by simp⟩ ?_
      intro repeats
      obtain ⟨unacknowledged,_⟩ | twice := repeats
      · exact unacknowledged.unanswered answered
      · exact twice.unanswered answered
    · rw [if_neg answered]
      -- One execution stands for good, one stands in the open transaction, or none does.
      obtain ⟨unacknowledged,one,after⟩ | ⟨acknowledged,rfl,sent,inside,none',open'⟩ |
        ⟨acknowledged,aborted,clean'⟩ := first_caught tx kind first answered
      · rw [again_iff connected one after unacknowledged second]
        have single : ¬TwiceInside (.live tx) kind first second := unacknowledged.single
        simp [Repeats,unacknowledged,single]
      · rw [inside_iff connected none' open' second]
        simp [Repeats,TwiceInside,acknowledged,inside,sent]
      · refine iff_of_true ((clean'.recover connected first.ping).execTry kind second) ?_
        intro repeats
        obtain ⟨unacknowledged,_⟩ | ⟨⟨tx',shape,fine⟩,plain,⟨sent,_⟩,_⟩ := repeats
        · exact acknowledged unacknowledged
        · have bad := aborted sent plain tx' (by simpa using shape)
          simp [fine] at bad

/-- The answer of an `INSERT` is lost, the `ping` reconnects, and the second try inserts again. -/
theorem exec_inserts_twice : ¬∀ (conn : Conn Unit) (kind : Kind) (first second : Trial),
    AppliedOnce conn kind first second := by
  intro once
  have applied := (once (.live none) (.plain false)
    ⟨.ok,.lostAfter,⟨.ok,.lostBefore⟩,⟨.ok,.answered⟩⟩ ⟨.ok,.answered,⟨.ok,.answered⟩,⟨.ok,.answered⟩⟩).1 rfl
  exact absurd applied (by decide)

end Db
end Call45Aggr
