import Call45Aggr.Library.Run
import Call45Aggr.ResultClearing

/-! A program with connections and `BDbResult` handles, which are moved, assigned, freed and
destroyed: each result of libpq has one owner. -/
namespace Call45Aggr.Sessions
open Library

/-- What calls and copies make of a connection to `server`. -/
inductive Used (server : Server) : BDb → Prop
  | fresh : Used server {}
  | called (db : BDb) (call : BDb.Call) (used : Used server db) : Used server (db.call server call)
  | source (db dbDst : BDb) (peers : Peers) (tables : CopyTables) (own : peers.source = server)
      (used : Used server db) : Used server (db.copyEx peers tables dbDst).source
  | destination (db dbSrc : BDb) (peers : Peers) (tables : CopyTables) (own : peers.destination = server)
      (used : Used server db) : Used server (dbSrc.copyEx peers tables db).destination

/-- The connections, and the handles that are alive. -/
structure Program where
  dbs : List BDb := []
  results : Ledger := {}
  objects : List BDbResult := []

namespace Program

inductive Action
  | connection
  | call (place : Nat) (call : BDb.Call)
  | copy (source destination : Nat) (peers : CopyLibpq) (tables : CopyTables)
  | move (place : Nat)
  | assign (target source : Nat)
  | destroy (place : Nat)
  | forceFree (place : Nat)
  | cursor (place : Nat) (call : ResultCursor.Call)

/-- `copy` goes between two connections. `assign` onto itself does nothing; onto another it
clears what that one held. -/
def step (libpq : Nat → Libpq) (s : Program) : Action → Option Program
  | .connection => some {s with dbs := s.dbs ++ [{}]}
  | .call place call => (s.dbs[place]?).map fun db =>
      let after := (Driver.mk db s.results).call (libpq place) call
      {dbs := s.dbs.set place after.1.db,results := after.1.results,objects := s.objects ++ after.2.toList}
  | .copy source destination peers tables => do
    let dbSrc ← s.dbs[source]?
    let dbDst ← s.dbs[destination]?
    if source = destination then none
    else
      let (copied,results) :=
        (peers.between (libpq source) (libpq destination)).copyEx tables dbSrc dbDst s.results
      return {s with dbs := (s.dbs.set source copied.source).set destination copied.destination,results}
  | .move place => (s.objects[place]?).map fun object =>
      {s with objects := s.objects.set place .empty ++ [object]}
  | .assign target source => do
    let assigned ← s.objects[target]?
    let moved ← s.objects[source]?
    if target = source then return s
    else
      return {s with
        results := pqClear s.results assigned.res
        objects := (s.objects.set source .empty).set target moved}
  | .destroy place => (s.objects[place]?).map fun object =>
      {s with results := pqClear s.results object.res,objects := s.objects.eraseIdx place}
  | .forceFree place => (s.objects[place]?).map fun object =>
      {s with results := pqClear s.results object.res,objects := s.objects.set place object.forceFree}
  | .cursor place call => do
    let object ← s.objects[place]?
    let moved ← object.moved call
    return {s with objects := s.objects.set place moved}

def held (s : Program) : List Nat := s.objects.flatMap BDbResult.ids

/-- No result is freed under a handle that still counts its rows. -/
def Spares (s : Program) : Action → Prop
  | .forceFree place => ∀ object ∈ s.objects[place]?, object.count = 0
  | _ => True

variable {libpq : Nat → Libpq}

theorem set_held {s : Program} {place : Nat} {object : BDbResult} (found : s.objects[place]? = some object)
    {other : BDbResult} (nothing : other.ids = []) :
    (object.ids ++ (s.objects.set place other).flatMap BDbResult.ids).Perm s.held := by
  have replaced := flatMap_set (f := BDbResult.ids) found other
  rw [nothing] at replaced
  exact replaced

/-- What a copy leaves: the handles, no result of its own, and both connections as in the model
without results. -/
theorem step_copy {s next : Program} {source destination : Nat} {peers : CopyLibpq} {tables : CopyTables}
    (stepped : step libpq s (.copy source destination peers tables) = some next) : source ≠ destination ∧
      ∃ dbSrc ∈ s.dbs[source]?, ∃ dbDst ∈ s.dbs[destination]?, ∃ results, s.results.Settled results [] ∧
        let peers := (peers.between (libpq source) (libpq destination)).toPeers
        next = {s with
          dbs := (s.dbs.set source (dbSrc.copyEx peers tables dbDst).source).set destination
            (dbSrc.copyEx peers tables dbDst).destination
          results} := by
  obtain ⟨dbSrc,read,stepped⟩ := Option.bind_eq_some_iff.mp stepped
  obtain ⟨dbDst,written,stepped⟩ := Option.bind_eq_some_iff.mp stepped
  split at stepped
  · contradiction
  next apart =>
    obtain ⟨results,copied,settled⟩ :=
      @CopyLibpq.copyEx_settles (peers.between (libpq source) (libpq destination)) tables dbSrc dbDst s.results
    rw [copied] at stepped
    exact ⟨apart,dbSrc,read,dbDst,written,results,settled,(Option.some.inj stepped).symm⟩

theorem step_accounts {s next : Program} {action : Action} (stepped : step libpq s action = some next)
    (accounts : s.results.Accounts s.held) : next.results.Accounts next.held := by
  cases action with
  | connection =>
    cases Option.some.inj stepped
    exact accounts
  | call place call =>
    obtain ⟨db,_,rfl⟩ := Option.map_eq_some_iff.mp stepped
    obtain ⟨-,settled,-⟩ := Driver.call_mirrors (libpq place) ⟨db,s.results⟩ call
    apply (settled _ accounts).perm
    rw [held,List.flatMap_append]
    exact List.perm_append_comm
  | copy source destination peers tables =>
    obtain ⟨-,dbSrc,-,dbDst,-,results,settled,rfl⟩ := step_copy stepped
    exact settled _ accounts
  | move place =>
    obtain ⟨object,found,rfl⟩ := Option.map_eq_some_iff.mp stepped
    apply accounts.perm
    rw [held,List.flatMap_append,List.flatMap_singleton]
    exact List.perm_append_comm.trans (set_held found rfl)
  | assign target source =>
    obtain ⟨assigned,there,stepped⟩ := Option.bind_eq_some_iff.mp stepped
    obtain ⟨moved,here,stepped⟩ := Option.bind_eq_some_iff.mp stepped
    split at stepped
    · cases Option.some.inj stepped
      exact accounts
    next other =>
      cases Option.some.inj stepped
      apply accounts_pqClear
      apply accounts.perm
      have emptied : (s.objects.set source .empty)[target]? = some assigned := by
        rw [List.getElem?_set_ne (Ne.symm other)]
        exact there
      exact (flatMap_set (f := BDbResult.ids) emptied moved).trans (set_held here rfl)
  | destroy place =>
    obtain ⟨object,found,rfl⟩ := Option.map_eq_some_iff.mp stepped
    apply accounts_pqClear
    exact accounts.perm (flatMap_eraseIdx (f := BDbResult.ids) found).symm
  | forceFree place =>
    obtain ⟨object,found,rfl⟩ := Option.map_eq_some_iff.mp stepped
    apply accounts_pqClear
    exact accounts.perm (set_held found rfl)
  | cursor place call =>
    obtain ⟨object,found,stepped⟩ := Option.bind_eq_some_iff.mp stepped
    obtain ⟨moved,called,stepped⟩ := Option.bind_eq_some_iff.mp stepped
    cases Option.some.inj stepped
    obtain ⟨cursor,-,rfl⟩ := Option.map_eq_some_iff.mp called
    have replaced := flatMap_set (f := BDbResult.ids) found {object with index := cursor.index}
    exact accounts.perm ((List.perm_append_left_iff _).mp replaced)

/-- Every connection is what the calls and copies on it make of it. -/
def Called (libpq : Nat → Libpq) (s : Program) : Prop :=
  ∀ place, ∀ db ∈ s.dbs[place]?, Used (libpq place).toServer db

theorem step_called {s next : Program} {action : Action} (stepped : step libpq s action = some next)
    (called : s.Called libpq) : next.Called libpq := by
  cases action with
  | connection =>
    cases Option.some.inj stepped
    intro place db found
    rw [Option.mem_def,List.getElem?_append] at found
    split at found
    · exact called place db found
    · cases List.mem_singleton.mp (List.mem_of_getElem? found)
      exact .fresh
  | call place call =>
    obtain ⟨db,here,rfl⟩ := Option.map_eq_some_iff.mp stepped
    obtain ⟨same,-,-⟩ := Driver.call_mirrors (libpq place) ⟨db,s.results⟩ call
    intro other after found
    by_cases own : other = place
    · subst own
      have bound := (List.getElem?_eq_some_iff.mp here).1
      rw [List.getElem?_set_self bound] at found
      rw [← Option.mem_some.mp found,same]
      exact .called db call (called other db here)
    · rw [List.getElem?_set_ne (Ne.symm own)] at found
      exact called other after found
  | copy source destination peers tables =>
    obtain ⟨apart,dbSrc,read,dbDst,written,results,-,rfl⟩ := step_copy stepped
    intro other after found
    dsimp only at found
    by_cases there : other = destination
    · subst there
      have bound := (List.getElem?_eq_some_iff.mp written).1
      rw [List.getElem?_set_self (by simpa using bound)] at found
      rw [← Option.mem_some.mp found]
      exact .destination dbDst dbSrc _ tables rfl (called other dbDst written)
    rw [List.getElem?_set_ne (Ne.symm there)] at found
    by_cases here : other = source
    · subst here
      rw [List.getElem?_set_self (List.getElem?_eq_some_iff.mp read).1] at found
      rw [← Option.mem_some.mp found]
      exact .source dbSrc dbDst _ tables rfl (called other dbSrc read)
    · rw [List.getElem?_set_ne (Ne.symm here)] at found
      exact called other after found
  | move place =>
    obtain ⟨object,found,rfl⟩ := Option.map_eq_some_iff.mp stepped
    exact called
  | assign target source =>
    obtain ⟨assigned,there,stepped⟩ := Option.bind_eq_some_iff.mp stepped
    obtain ⟨moved,here,stepped⟩ := Option.bind_eq_some_iff.mp stepped
    split at stepped <;>
      · cases Option.some.inj stepped
        exact called
  | destroy place =>
    obtain ⟨object,found,rfl⟩ := Option.map_eq_some_iff.mp stepped
    exact called
  | forceFree place =>
    obtain ⟨object,found,rfl⟩ := Option.map_eq_some_iff.mp stepped
    exact called
  | cursor place call =>
    obtain ⟨object,found,stepped⟩ := Option.bind_eq_some_iff.mp stepped
    obtain ⟨moved,ran,stepped⟩ := Option.bind_eq_some_iff.mp stepped
    cases Option.some.inj stepped
    exact called

/-- A handle without a result has no rows to move to. -/
def Counted (s : Program) : Prop := ∀ object ∈ s.objects, object.res = none → object.count = 0

theorem counted_set {s : Program} (counted : s.Counted) (object : BDbResult) (own : object.res = none → object.count = 0)
    (place : Nat) : ∀ other ∈ s.objects.set place object, other.res = none → other.count = 0 := by
  intro other member
  rcases List.mem_or_eq_of_mem_set member with old | rfl
  · exact counted other old
  · exact own

theorem step_counted {s next : Program} {action : Action} (stepped : step libpq s action = some next)
    (spares : s.Spares action) (counted : s.Counted) : next.Counted := by
  cases action with
  | connection =>
    cases Option.some.inj stepped
    exact counted
  | call place call =>
    obtain ⟨db,_,rfl⟩ := Option.map_eq_some_iff.mp stepped
    obtain ⟨-,-,filled⟩ := Driver.call_mirrors (libpq place) ⟨db,s.results⟩ call
    intro object member null
    rcases List.mem_append.mp member with old | new
    · exact counted object old null
    · exact absurd null (filled object (Option.mem_toList.mp new))
  | copy source destination peers tables =>
    obtain ⟨-,dbSrc,-,dbDst,-,results,-,rfl⟩ := step_copy stepped
    exact counted
  | move place =>
    obtain ⟨object,found,rfl⟩ := Option.map_eq_some_iff.mp stepped
    intro other member
    rcases List.mem_append.mp member with old | new
    · exact counted_set counted .empty (fun _ => rfl) place other old
    · cases List.mem_singleton.mp new
      exact counted object (List.mem_of_getElem? found)
  | assign target source =>
    obtain ⟨assigned,there,stepped⟩ := Option.bind_eq_some_iff.mp stepped
    obtain ⟨moved,here,stepped⟩ := Option.bind_eq_some_iff.mp stepped
    split at stepped
    · cases Option.some.inj stepped
      exact counted
    · cases Option.some.inj stepped
      have emptied : Program.Counted {s with objects := s.objects.set source .empty} :=
        counted_set counted .empty (fun _ => rfl) source
      exact counted_set emptied moved (counted moved (List.mem_of_getElem? here)) target
  | destroy place =>
    obtain ⟨object,found,rfl⟩ := Option.map_eq_some_iff.mp stepped
    exact fun other member => counted other (List.mem_of_mem_eraseIdx member)
  | forceFree place =>
    obtain ⟨object,found,rfl⟩ := Option.map_eq_some_iff.mp stepped
    exact counted_set counted object.forceFree (fun _ => spares object found) place
  | cursor place call =>
    obtain ⟨object,found,stepped⟩ := Option.bind_eq_some_iff.mp stepped
    obtain ⟨moved,ran,stepped⟩ := Option.bind_eq_some_iff.mp stepped
    cases Option.some.inj stepped
    obtain ⟨cursor,-,rfl⟩ := Option.map_eq_some_iff.mp ran
    have own := counted object (List.mem_of_getElem? found)
    exact counted_set counted {object with index := cursor.index} own place

section
variable {allowed : Program → Action → Prop} {s : Program} (run : Run (step libpq) allowed {} s)
include run

theorem run_accounts : s.results.Accounts s.held := by
  apply run.invariant Ledger.accounts_nil
  exact fun before next action _ accounts _ stepped => step_accounts stepped accounts

theorem run_uncleared {object : BDbResult} (member : object ∈ s.objects) {res : PGresult}
    (holds : object.res = some res) : res.id ∉ s.results.cleared := by
  apply (run_accounts run).uncleared
  refine List.mem_flatMap.mpr ⟨object,member,?_⟩
  rw [BDbResult.ids,holds]
  exact List.mem_singleton_self _

end

/-- In every run each result that libpq handed out is held by one handle or was cleared
once, no handle holds a cleared one, and all are cleared when no handle is left. -/
theorem results_owned (libpq : Nat → Libpq) {s : Program} (run : Run (step libpq) Always {} s) :
    s.results.Accounts s.held ∧ (∀ object ∈ s.objects, ∀ res ∈ object.res, res.id ∉ s.results.cleared) ∧
      (s.objects = [] → s.results.cleared.Perm (List.range s.results.created)) ∧ s.Called libpq := by
  have accounts := run_accounts run
  refine ⟨accounts,fun object member res holds => run_uncleared run member holds,fun none => ?_,?_⟩
  · rw [held,none] at accounts
    exact accounts
  · apply run.invariant
    · exact fun place db found => absurd found (by simp)
    · exact fun before next action _ called _ stepped => step_called stepped called

/-- The first answer is to the time zone, and every other is one row. -/
def oneRow : Libpq where
  accepts _ := true
  reply n := if n = 0 then {status := .commandOk} else {status := .tuplesOk,size := 1,value := "2019-11-12"}
  lost _ := false

/-- A query whose handle is moved, and another that is assigned over it. -/
def reading : List Action := [.connection,.call 0 (.query "select start_time from call_leg"),.move 0,.destroy 0,
  .call 0 (.query "select start_time from call_leg"),.assign 0 1,.destroy 1]

/-- The fourth statement of the first connection and the second of the other begin a copy. -/
def copiers (place : Nat) : Libpq where
  accepts := oneRow.accepts
  reply n :=
    if place = 0 ∧ n = 3 then {status := .copyOut}
    else if place = 1 ∧ n = 1 then {status := .copyIn}
    else oneRow.reply n
  lost := oneRow.lost

def oneBuffer : CopyLibpq where
  source := oneRow.toServer
  destination := oneRow.toServer
  buffers := [[65]]
  sourceLost := oneRow.lost
  destinationLost := oneRow.lost

def copying : List Action := reading ++ [.connection,
  .copy 0 1 oneBuffer {srcTable := "call_leg",dstTable := "call_leg",srcColumns := "*",dstColumns := "*"}]

theorem results_owned_copying : ∃ s : Program,
    (s.results.created = 8 ∧ s.results.cleared = [0,1,3,4,5,6,7] ∧ s.held = [2]) ∧ s.results.Accounts s.held := by
  obtain ⟨s,run,reached⟩ := exists_run (step copiers) Always {}
    (fun s => s.results.created = 8 ∧ s.results.cleared = [0,1,3,4,5,6,7] ∧ s.held = [2]) copying (by decide)
  exact ⟨s,of_decide_eq_true reached,(results_owned _ run).1⟩

theorem move_count {before after : ResultCursor.BDbResult Unit} {move : ResultCursor.Move} {answer : Bool}
    (moved : before.move move = some (answer,after)) : after.count = before.count := by
  cases move with
  | next =>
    rw [ResultCursor.BDbResult.move,ResultCursor.BDbResult.next] at moved
    split at moved
    · cases moved
    · cases moved
      rfl
  | previous =>
    rw [ResultCursor.BDbResult.move,ResultCursor.BDbResult.previous] at moved
    split at moved
    · cases moved
    · cases moved
      rfl
  | first =>
    rw [ResultCursor.BDbResult.move,ResultCursor.BDbResult.first] at moved
    split at moved <;>
      · cases moved
        rfl
  | last =>
    rw [ResultCursor.BDbResult.move,ResultCursor.BDbResult.last] at moved
    split at moved <;>
      · cases moved
        rfl

/-- Where a move answers true, the getters read a row of a result that nobody has cleared. -/
theorem getters_safe (libpq : Nat → Libpq) {s : Program} (run : Run (step libpq) Spares {} s) {object : BDbResult}
    (member : object ∈ s.objects) {move : ResultCursor.Move} (guarded : object.cursor.Guarded (.move move)) :
    ∃ answer after, object.cursor.move move = some (answer,after) ∧ (answer = true → ∃ res ∈ object.res,
      res.id ∉ s.results.cleared ∧ 0 ≤ after.index ∧ after.index < res.reply.size) := by
  obtain ⟨answer,after,moved,sound⟩ := (ResultCursor.BDbResult.sound_iff_guarded _ _).mpr guarded
  refine ⟨answer,after,moved,fun answered => ?_⟩
  obtain ⟨⟨low,high⟩,-⟩ := sound answered
  have counted : s.Counted := by
    apply run.invariant
    · exact fun object member => absurd member (by simp)
    · exact fun before next action _ counted spares stepped => step_counted stepped spares counted
  have count : after.count = object.count := by
    rw [move_count moved]
    simp [BDbResult.cursor,ResultCursor.BDbResult.count]
  cases holds : object.res with
  | none =>
    have none := counted object member holds
    omega
  | some res =>
    have size := object.sized res holds
    exact ⟨res,rfl,run_uncleared run member holds,low,by omega⟩

instance (s : Program) : ∀ action, Decidable (s.Spares action)
  | .forceFree _ => inferInstanceAs (Decidable (∀ _ ∈ _, _))
  | .connection | .call _ _ | .copy _ _ _ _ | .move _ | .assign _ _ | .destroy _ | .cursor _ _ =>
    inferInstanceAs (Decidable True)

theorem getters_safe_reading : ∃ (s : Program) (object : BDbResult), object ∈ s.objects ∧ ∃ answer after,
    object.cursor.move .next = some (answer,after) ∧ (answer = true → ∃ res ∈ object.res,
      res.id ∉ s.results.cleared ∧ 0 ≤ after.index ∧ after.index < res.reply.size) := by
  obtain ⟨s,run,reached⟩ := exists_run (step fun _ => oneRow) Spares {}
    (fun s => s.objects.any fun object => object.cursor.Guarded (.move .next)) reading (by decide)
  obtain ⟨object,member,guarded⟩ := List.any_eq_true.mp reached
  exact ⟨s,object,member,getters_safe _ run member (of_decide_eq_true guarded)⟩

end Program
end Call45Aggr.Sessions
