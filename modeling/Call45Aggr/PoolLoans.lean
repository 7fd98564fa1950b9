import Call45Aggr.DbPool

/-! Which string the connections that `get` hands out were created with, where the string changes while
connections are on loan. -/
namespace Call45Aggr
open Library

/-- The connections that `get` has returned and `back` has not. -/
structure PoolLoans where
  pool : DbPool
  loans : List PoolConn := []
  created : Nat := 0

namespace PoolLoans

inductive Action
  | get
  | back (place : Nat) (time : Int)
  | setConnectionString (connectionString : String)

def step (s : PoolLoans) : Action → Option PoolLoans
  | .get => some {
      pool := (s.pool.get s.created).2
      loans := s.loans ++ [(s.pool.get s.created).1]
      created := s.created + 1}
  | .back place time => (s.loans[place]?).map fun conn =>
      {s with pool := s.pool.back time conn,loans := s.loans.eraseIdx place}
  | .setConnectionString connectionString =>
    some {s with pool := s.pool.setConnectionString connectionString}

/-- What `count` calls of `get` in a row return. -/
def gets (pool : DbPool) (fresh : Nat) : Nat → List PoolConn
  | 0 => []
  | count + 1 => (pool.get fresh).1 :: gets (pool.get fresh).2 (fresh + 1) count

/-- However often `get` is called now, it returns connections of the string in force. -/
def Serves (s : PoolLoans) : Prop :=
  ∀ count, ∀ conn ∈ gets s.pool s.created count, conn.connectionString = s.pool.connectionString

/-- A connection given back was created with the string in force. -/
def Matching (s : PoolLoans) : Action → Prop
  | .back place _ => ∀ conn ∈ s.loans[place]?, conn.connectionString = s.pool.connectionString
  | _ => True

instance (s : PoolLoans) (action : Action) : Decidable (s.Matching action) := by
  unfold Matching
  split <;> infer_instance

theorem get_nil {pool : DbPool} (empty : pool.connections.entries = []) (fresh : Nat) :
    pool.get fresh = (⟨fresh,pool.connectionString⟩,pool) := by
  simp [DbPool.get,empty]

theorem get_cons {pool : DbPool} {time : Int} {conn : PoolConn} {rest : List (Int × PoolConn)}
    (entries : pool.connections.entries = (time,conn) :: rest) (fresh : Nat) :
    (pool.get fresh).1 = conn ∧ (pool.get fresh).2.connectionString = pool.connectionString ∧
      (pool.get fresh).2.connections.entries = rest := by
  have later : ∀ entry ∈ rest, entry.1 ≠ time := by
    have sorted := pool.connections.sorted
    rw [entries] at sorted
    exact fun entry member => ((List.pairwise_cons.mp sorted).1 entry member).ne'
  simpa [DbPool.get,entries,SortedMap.erase] using later

theorem gets_stored (pool : DbPool) (fresh : Nat) :
    gets pool fresh pool.connections.entries.length = pool.connections.values := by
  unfold SortedMap.values
  generalize entries : pool.connections.entries = stored
  induction stored generalizing pool fresh with
  | nil => rfl
  | cons first rest ih =>
    obtain ⟨returned,-,left⟩ := get_cons entries fresh
    rw [List.length_cons,gets,ih _ _ left,returned]
    rfl

theorem gets_of_stored {pool : DbPool}
    (stored : ∀ conn ∈ pool.connections.values, conn.connectionString = pool.connectionString)
    (fresh count : Nat) : ∀ conn ∈ gets pool fresh count, conn.connectionString = pool.connectionString := by
  induction count generalizing pool fresh with
  | zero => simp [gets]
  | succ count ih =>
    intro conn member
    cases entries : pool.connections.entries with
    | nil =>
      rw [gets,get_nil entries] at member
      rcases List.mem_cons.mp member with rfl | later
      · rfl
      · exact ih stored _ conn later
    | cons first rest =>
      obtain ⟨returned,same,left⟩ := get_cons entries fresh
      have members : ∀ conn ∈ first.2 :: rest.map Prod.snd, conn.connectionString = pool.connectionString := by
        simpa [SortedMap.values,entries] using stored
      rw [gets,returned] at member
      rcases List.mem_cons.mp member with rfl | later
      · exact members _ (List.mem_cons_self)
      · rw [← same]
        refine ih ?_ _ conn later
        intro conn inside
        rw [SortedMap.values,left] at inside
        rw [same]
        exact members conn (List.mem_cons_of_mem _ inside)

theorem serves_iff_stored (s : PoolLoans) : s.Serves ↔
    ∀ conn ∈ s.pool.connections.values, conn.connectionString = s.pool.connectionString := by
  constructor
  · intro serves
    rw [← gets_stored s.pool s.created]
    exact serves _
  · intro stored count
    exact gets_of_stored stored _ count

theorem step_serves {s next : PoolLoans} {action : Action} (serves : s.Serves)
    (stepped : s.step action = some next) : next.Serves ↔ s.Matching action := by
  rw [serves_iff_stored] at serves ⊢
  cases action with
  | get =>
    cases Option.some.inj stepped
    refine iff_of_true ?_ trivial
    cases entries : s.pool.connections.entries with
    | nil => simpa [get_nil entries] using serves
    | cons first rest =>
      obtain ⟨-,same,left⟩ := get_cons entries s.created
      intro conn inside
      rw [SortedMap.values,left] at inside
      rw [same]
      apply serves conn
      rw [SortedMap.values,entries]
      exact List.mem_cons_of_mem _ inside
  | back place time =>
    obtain ⟨conn,lent,rfl⟩ := Option.map_eq_some_iff.mp stepped
    have returned : s.Matching (.back place time) ↔ conn.connectionString = s.pool.connectionString := by
      simp [Matching,lent]
    rw [returned]
    constructor
    · intro stored
      exact stored conn (SortedMap.mem_values.mpr ⟨time,by simp [DbPool.back]⟩)
    · intro same other inside
      obtain ⟨key,found⟩ := SortedMap.mem_values.mp inside
      rw [DbPool.back,SortedMap.find?_insert] at found
      split at found
      next =>
        cases Option.some.inj found
        exact same
      next => exact serves other (SortedMap.mem_values.mpr ⟨key,found⟩)
  | setConnectionString connectionString =>
    cases Option.some.inj stepped
    refine iff_of_true ?_ trivial
    unfold DbPool.setConnectionString
    split
    · exact serves
    · simp [SortedMap.values,SortedMap.empty]

/-- In a history of a pool, `get` returns connections of the string in force at each moment exactly
when each connection given back was created with the string then in force. -/
theorem serves_iff (connectionString : String) (actions : List Action) (s : PoolLoans)
    (ran : execute step Always actions {pool := {connectionString}} = some s) :
    (∀ earlier reached, earlier <+: actions →
        execute step Always earlier {pool := {connectionString}} = some reached → reached.Serves) ↔
      execute step Matching actions {pool := {connectionString}} = some s :=
  execute_prefixes_iff (fun _ _ _ serves stepped => step_serves serves stepped)
    ((serves_iff_stored _).mpr (by simp [SortedMap.values,SortedMap.empty])) actions ran

theorem serves_changed : ∃ s : PoolLoans, s.pool.connectionString = "new" ∧ s.loans.length = 1 ∧ s.Serves := by
  obtain ⟨s,ran,good⟩ := (Option.any_eq_true _ _).mp
    (by decide : (execute step Matching
      [.get,.get,.back 0 5,.setConnectionString "new",.get,.back 1 9] {pool := {connectionString := "old"}}).any
        (fun s => decide (s.pool.connectionString = "new") && s.loans.length == 1) = true)
  simp only [Bool.and_eq_true,decide_eq_true_eq,beq_iff_eq] at good
  exact ⟨s,good.1,good.2,(serves_iff "old" _ s (execute_always _ ran)).mpr ran _ s List.prefix_rfl
    (execute_always _ ran)⟩

/-- A connection on loan outlives the change of the string. -/
theorem stale_served : ¬∀ (connectionString : String) (s : PoolLoans),
    Run step Always {pool := {connectionString}} s →
      (s.pool.get s.created).1.connectionString = s.pool.connectionString := by
  intro current
  obtain ⟨s,run,stale⟩ := exists_run step Always {pool := {connectionString := "old"}}
    (fun s : PoolLoans => (s.pool.get s.created).1.connectionString != s.pool.connectionString)
    [.get,.setConnectionString "new",.back 0 5] (by decide)
  simp [current "old" s run] at stale

end PoolLoans
end Call45Aggr
