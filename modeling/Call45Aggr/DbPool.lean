import Call45Aggr.Library.Run
import Call45Aggr.Library.SortedMap
import Mathlib.Data.List.Perm.Basic
import Mathlib.Data.List.Range
import Mathlib.Data.Int.Order.Basic

/-! `DbPool`, keyed by the second of the return, and the `reusable_object` handles whose
destructors return connections to it. Its operations hold the mutex, so each is one step. -/
namespace Call45Aggr
open Library

/-- `id` tells apart the connections that `get` creates. -/
structure PoolConn where
  id : Nat
  connectionString : String
  deriving DecidableEq

structure DbPool where
  connectionString : String
  connections : SortedMap Int PoolConn := .empty

namespace DbPool

def setConnectionString (pool : DbPool) (connectionString : String) : DbPool :=
  if pool.connectionString = connectionString then pool else {connectionString}

def get (pool : DbPool) (fresh : Nat) : PoolConn × DbPool :=
  match pool.connections.entries with
  | [] => (⟨fresh,pool.connectionString⟩,pool)
  | (time,conn) :: _ => (conn,{pool with connections := pool.connections.erase time})

def back (pool : DbPool) (time : Int) (conn : PoolConn) : DbPool :=
  {pool with connections := pool.connections.insert time conn}

/-- Old at `time`, and come to by the loop, which leaves open where the increment of an
erased iterator leads. -/
def outdated (time threshold : Int) (reached : Int → Bool) (key : Int) : Bool :=
  !decide (time - key < threshold) && reached key

def deleteOlderThen (pool : DbPool) (time threshold : Int) (reached : Int → Bool) : DbPool :=
  {pool with connections := pool.connections.filter fun entry => !outdated time threshold reached entry.1}

def stored (pool : DbPool) : List Nat := pool.connections.values.map (·.id)

end DbPool

/-- `instance_`; the callback of every handle is `DbPool::back`. -/
structure ReusableObject where
  inst : Option PoolConn
  deriving DecidableEq

def ReusableObject.ids (handle : ReusableObject) : List Nat := (handle.inst.map (·.id)).toList

@[simp] theorem ReusableObject.ids_none : (⟨none⟩ : ReusableObject).ids = [] := rfl

@[simp] theorem ReusableObject.ids_some (conn : PoolConn) : (⟨some conn⟩ : ReusableObject).ids = [conn.id] := rfl

/-- The pool, the live handles, and of the connections: how many it created, and those
that `delete_older_then` and `set_connection_string` removed. -/
structure Lending where
  pool : DbPool
  now : Int
  handles : List ReusableObject := []
  created : Nat := 0
  removed : List Nat := []

namespace Lending

inductive Action
  | tick (seconds : Nat)
  | connection
  | copy (place : Nat)
  | move (place : Nat)
  | assign (target source : Nat)
  | destroy (place : Nat)
  | deleteOlderThen (threshold : Int) (reached : Int → Bool)
  | setConnectionString (connectionString : String)

def step (s : Lending) : Action → Option Lending
  | .tick seconds => some {s with now := s.now + seconds}
  | .connection =>
    some {s with
      pool := (s.pool.get s.created).2
      handles := s.handles ++ [⟨some (s.pool.get s.created).1⟩]
      created := if s.pool.connections.entries = [] then s.created + 1 else s.created}
  | .copy place => (s.handles[place]?).map fun handle => {s with handles := s.handles ++ [handle]}
  | .move place => (s.handles[place]?).map fun handle =>
      {s with handles := s.handles.set place ⟨none⟩ ++ [handle]}
  | .assign target source => do
    let _ ← s.handles[target]?
    let moved ← s.handles[source]?
    return {s with handles := (s.handles.set source ⟨none⟩).set target moved}
  | .destroy place => (s.handles[place]?).map fun handle =>
      {s with
        pool := match handle.inst with
          | some conn => s.pool.back s.now conn
          | none => s.pool
        handles := s.handles.eraseIdx place}
  | .deleteOlderThen threshold reached =>
    some {s with
      pool := s.pool.deleteOlderThen s.now threshold reached
      removed := s.removed ++ (s.pool.connections.filter fun entry =>
        DbPool.outdated s.now threshold reached entry.1).values.map (·.id)}
  | .setConnectionString connectionString =>
    some {s with
      pool := s.pool.setConnectionString connectionString
      removed := s.removed ++
        if s.pool.connectionString = connectionString then [] else s.pool.stored}

def held (s : Lending) : List Nat := s.handles.flatMap ReusableObject.ids

/-- Every connection created is in one handle, stored once, or removed. -/
def Owned (s : Lending) : Prop :=
  (s.held ++ s.pool.stored ++ s.removed).Perm (List.range s.created)

/-- A handle that holds a connection is not copied, nothing is moved onto it, and none is
destroyed in a second that a connection is stored under. -/
def Exclusive (s : Lending) : Action → Prop
  | .copy place => ∀ handle ∈ s.handles[place]?, handle.inst = none
  | .assign target source => target = source ∨ ∀ handle ∈ s.handles[target]?, handle.inst = none
  | .destroy place => s.pool.connections.find? s.now = none ∨ ∀ handle ∈ s.handles[place]?, handle.inst = none
  | _ => True

instance (s : Lending) (action : Action) : Decidable (s.Exclusive action) := by
  unfold Exclusive
  split <;> infer_instance

theorem get_stored (pool : DbPool) (fresh : Nat) :
    (pool.connections.entries = [] ∧ pool.get fresh = (⟨fresh,pool.connectionString⟩,pool)) ∨
      pool.connections.entries ≠ [] ∧
        pool.stored.Perm ((pool.get fresh).1.id :: (pool.get fresh).2.stored) := by
  cases entries : pool.connections.entries with
  | nil => exact .inl ⟨rfl,by simp [DbPool.get,entries]⟩
  | cons first rest =>
    refine .inr ⟨by simp,?_⟩
    have found : pool.connections.find? first.1 = some first.2 :=
      SortedMap.find?_of_mem (by simp [entries])
    simpa [DbPool.get,entries,DbPool.stored] using (SortedMap.values_erase found).map (·.id)

theorem back_stored (pool : DbPool) (time : Int) (conn : PoolConn) :
    ((pool.back time conn).stored ++ ((pool.connections.find? time).map (·.id)).toList).Perm
      (conn.id :: pool.stored) := by
  have kept := (pool.connections.values_insert time conn).map (·.id)
  cases found : pool.connections.find? time <;> simpa [DbPool.back,DbPool.stored,found] using kept

theorem deleteOlderThen_stored (pool : DbPool) (time threshold : Int) (reached : Int → Bool) :
    ((pool.deleteOlderThen time threshold reached).stored ++ (pool.connections.filter fun entry =>
      DbPool.outdated time threshold reached entry.1).values.map (·.id)).Perm pool.stored := by
  have split := (pool.connections.values_filter fun entry =>
    !DbPool.outdated time threshold reached entry.1).map (·.id)
  simpa [DbPool.deleteOlderThen,DbPool.stored] using split

theorem ids_eraseIdx {handles : List ReusableObject} {place : Nat} {handle : ReusableObject}
    (found : handles[place]? = some handle) :
    (handles.flatMap ReusableObject.ids).Perm (handle.ids ++ (handles.eraseIdx place).flatMap ReusableObject.ids) := by
  obtain ⟨bound,rfl⟩ := List.getElem?_eq_some_iff.mp found
  simpa using ((List.getElem_cons_eraseIdx_perm bound).symm.flatMap_right ReusableObject.ids)

theorem ids_set {handles : List ReusableObject} {place : Nat} {handle : ReusableObject}
    (found : handles[place]? = some handle) (other : ReusableObject) :
    (handle.ids ++ (handles.set place other).flatMap ReusableObject.ids).Perm
      (other.ids ++ handles.flatMap ReusableObject.ids) := by
  have erased := ids_eraseIdx found
  obtain ⟨bound,rfl⟩ := List.getElem?_eq_some_iff.mp found
  have placed : ((handles.set place other).flatMap ReusableObject.ids).Perm
      (other.ids ++ (handles.eraseIdx place).flatMap ReusableObject.ids) := by
    simpa using ((List.set_perm_cons_eraseIdx bound other).flatMap_right ReusableObject.ids)
  rw [List.perm_iff_count] at *
  intro id
  have left := erased id
  have right := placed id
  simp only [List.count_append] at *
  omega

def duplicated (s : Lending) : Action → List Nat
  | .copy place => (s.handles[place]?).elim [] (·.ids)
  | _ => []

/-- What nothing holds any more: the connection of a handle that another is moved onto,
and the stored one that a returned one overwrites. -/
def dropped (s : Lending) : Action → List Nat
  | .assign target source => if target = source then [] else (s.handles[target]?).elim [] (·.ids)
  | .destroy place =>
    if (s.handles[place]?).elim [] (·.ids) = [] then []
    else ((s.pool.connections.find? s.now).map (·.id)).toList
  | _ => []

def places (s : Lending) : List Nat := s.held ++ s.pool.stored ++ s.removed

theorem step_places {s next : Lending} {action : Action} (stepped : s.step action = some next) :
    ∃ fresh, List.range next.created = List.range s.created ++ fresh ∧
      (next.places ++ s.dropped action).Perm (s.duplicated action ++ fresh ++ s.places) := by
  simp only [List.perm_iff_count,places,held,List.count_append]
  cases action with
  | tick seconds =>
    cases Option.some.inj stepped
    exact ⟨[],by simp,by simp [dropped,duplicated]⟩
  | connection =>
    cases Option.some.inj stepped
    rcases get_stored s.pool s.created with ⟨empty,created⟩ | ⟨filled,taken⟩
    · refine ⟨[s.created],by simp [empty,List.range_succ],fun id => ?_⟩
      simp [dropped,duplicated,created]
      omega
    · refine ⟨[],by simp [filled],fun id => ?_⟩
      have moved := taken.count_eq id
      simp [dropped,duplicated,List.count_cons] at moved ⊢
      omega
  | copy place =>
    obtain ⟨handle,found,rfl⟩ := Option.map_eq_some_iff.mp stepped
    exact ⟨[],by simp,fun id => by simp [dropped,duplicated,found]; omega⟩
  | move place =>
    obtain ⟨handle,found,rfl⟩ := Option.map_eq_some_iff.mp stepped
    refine ⟨[],by simp,fun id => ?_⟩
    have moved := (ids_set found ⟨none⟩).count_eq id
    simp [dropped,duplicated] at moved ⊢
    omega
  | assign target source =>
    simp only [step,Option.bind_eq_bind,Option.bind_eq_some_iff,Option.pure_def] at stepped
    obtain ⟨old,onto,moved,found,stepped⟩ := stepped
    cases Option.some.inj stepped
    refine ⟨[],by simp,fun id => ?_⟩
    have emptied := (ids_set found ⟨none⟩).count_eq id
    by_cases same : target = source
    · subst same
      have found' : (s.handles.set target ⟨none⟩)[target]? = some ⟨none⟩ := by
        obtain ⟨bound,_⟩ := List.getElem?_eq_some_iff.mp found
        simp [bound]
      have filled := (ids_set found' moved).count_eq id
      simp [dropped,duplicated] at emptied filled ⊢
      omega
    · have onto' : (s.handles.set source ⟨none⟩)[target]? = some old := by
        rw [List.getElem?_set_ne (Ne.symm same),onto]
      have filled := (ids_set onto' moved).count_eq id
      simp [dropped,duplicated,same,onto] at emptied filled ⊢
      omega
  | destroy place =>
    obtain ⟨handle,found,rfl⟩ := Option.map_eq_some_iff.mp stepped
    refine ⟨[],by simp,fun id => ?_⟩
    have erased := (ids_eraseIdx found).count_eq id
    obtain ⟨_ | conn⟩ := handle
    · simp [dropped,duplicated,found] at erased ⊢
      omega
    · have returned := (back_stored s.pool s.now conn).count_eq id
      simp [dropped,duplicated,found,List.count_cons] at erased returned ⊢
      omega
  | deleteOlderThen threshold reached =>
    cases Option.some.inj stepped
    refine ⟨[],by simp,fun id => ?_⟩
    have split := (deleteOlderThen_stored s.pool s.now threshold reached).count_eq id
    simp [dropped,duplicated] at split ⊢
    omega
  | setConnectionString connectionString =>
    cases Option.some.inj stepped
    refine ⟨[],by simp,fun id => ?_⟩
    by_cases same : s.pool.connectionString = connectionString
    · simp [dropped,duplicated,DbPool.setConnectionString,same]
    · simp [dropped,duplicated,DbPool.setConnectionString,DbPool.stored,same]
      omega

theorem exclusive_iff (s : Lending) (action : Action) :
    s.Exclusive action ↔ s.dropped action = [] ∧ s.duplicated action = [] := by
  have empty (handle : ReusableObject) : handle.ids = [] ↔ handle.inst = none := by
    simp [ReusableObject.ids]
  cases action with
  | copy place => cases found : s.handles[place]? <;> simp [Exclusive,dropped,duplicated,found,empty]
  | assign target source =>
    by_cases same : target = source
    · simp [Exclusive,dropped,duplicated,same]
    · cases found : s.handles[target]? <;> simp [Exclusive,dropped,duplicated,same,found,empty]
  | destroy place =>
    cases found : s.handles[place]? with
    | none => simp [Exclusive,dropped,duplicated,found]
    | some handle =>
      by_cases none' : handle.inst = none
      · simp [Exclusive,dropped,duplicated,found,empty,none']
      · simp [Exclusive,dropped,duplicated,found,empty,none']
  | _ => simp [Exclusive,dropped,duplicated]

theorem step_owned {s next : Lending} {action : Action} (owned : s.Owned)
    (stepped : s.step action = some next) : next.Owned ↔ s.Exclusive action := by
  obtain ⟨fresh,range,moved⟩ := step_places stepped
  rw [exclusive_iff]
  have single : s.dropped action = [] ∨ s.duplicated action = [] := by
    cases action <;> simp [dropped,duplicated]
  have total : (next.places ++ s.dropped action).Perm (s.duplicated action ++ List.range next.created) := by
    rw [range]
    refine moved.trans ?_
    rw [List.append_assoc]
    exact ((owned.append_left fresh).trans List.perm_append_comm).append_left _
  constructor
  -- A duplicate adds a place and a drop takes one away, and no step does both.
  · intro still
    have size := total.length_eq
    have placed : next.places.length = (List.range next.created).length := still.length_eq
    rw [List.length_append,List.length_append,placed] at size
    rcases single with none | none
    · rw [none,List.length_nil] at size
      exact ⟨none,List.eq_nil_of_length_eq_zero (by omega)⟩
    · rw [none,List.length_nil] at size
      exact ⟨List.eq_nil_of_length_eq_zero (by omega),none⟩
  · intro ⟨noneDropped,noneTwice⟩
    simpa [Owned,places,noneDropped,noneTwice] using total

/-- In a history of a pool, every connection is in one place at each moment exactly when
every step is `Exclusive`. -/
theorem owned_iff (connectionString : String) (start : Int) (actions : List Action) (s : Lending)
    (ran : execute step Always actions {pool := {connectionString},now := start} = some s) :
    (∀ earlier reached, earlier <+: actions →
        execute step Always earlier {pool := {connectionString},now := start} = some reached → reached.Owned) ↔
      execute step Exclusive actions {pool := {connectionString},now := start} = some s :=
  execute_prefixes_iff (fun _ _ _ owned stepped => step_owned owned stepped)
    (by simp [Owned,held,DbPool.stored]) actions ran

theorem owned_reused : ∃ s : Lending, s.created = 2 ∧ s.Owned := by
  obtain ⟨s,ran,good⟩ := (Option.any_eq_true _ _).mp
    (by decide : (execute step Exclusive
      [.connection,.connection,.move 0,.destroy 2,.tick 1,.destroy 1,.connection,.destroy 0,.tick 30,
        .deleteOlderThen 20 fun _ => true]
      {pool := {connectionString := "output"},now := 0}).any (fun s => s.created == 2) = true)
  exact ⟨s,by simpa using good,(owned_iff "output" 0 _ s (execute_always _ ran)).mpr ran _ s
    List.prefix_rfl (execute_always _ ran)⟩

theorem returned_dropped : ¬∀ (connectionString : String) (start : Int) (s : Lending),
    Run step Always {pool := {connectionString},now := start} s → s.Owned := by
  intro owned
  obtain ⟨s,run,lost⟩ := exists_run step Always {pool := {connectionString := "output"},now := 0}
    (fun s : Lending => (s.held ++ s.pool.stored ++ s.removed).length != s.created)
    [.connection,.connection,.destroy 0,.destroy 0] (by decide)
  have size := (owned "output" 0 s run).length_eq
  rw [List.length_range] at size
  simp only [size,bne_self_eq_false,reduceCtorEq] at lost

end Lending
end Call45Aggr
