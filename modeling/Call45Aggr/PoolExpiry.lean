import Call45Aggr.DbPool

/-! The loop of `delete_older_then` with its iterator into the map. -/
namespace Call45Aggr
open Library

namespace PoolExpiry

/-- The key of the element, none past the last one. -/
abbrev Iterator := Option Int

/-- What the loop comes to: its next turn, its end, or the use of an iterator whose element is erased. -/
inductive Loop
  | turn (pool : DbPool) (it : Iterator)
  | left (pool : DbPool)
  | erased

/-- `++it`. -/
def advance (pool : DbPool) (key : Int) : Option Iterator :=
  (pool.connections.find? key).map fun _ => (pool.connections.next? (some key)).map Prod.fst

def turn (time threshold : Int) (pool : DbPool) : Iterator → Loop
  | none => .left pool
  | some key =>
    match pool.connections.find? key with
    | none => .erased
    | some _ =>
      if time - key < threshold then .left pool
      else
        let pool := {pool with connections := pool.connections.erase key}
        match advance pool key with
        | none => .erased
        | some it => .turn pool it

def loop (time threshold : Int) : Nat → Loop → Loop
  | turns + 1, .turn pool it => loop time threshold turns (turn time threshold pool it)
  | _, state => state

def deleteOlderThen (pool : DbPool) (time threshold : Int) (turns : Nat) : Loop :=
  loop time threshold turns (.turn pool ((pool.connections.next? none).map Prod.fst))

/-- The loop ends, by no erased iterator, and has removed what is old and nothing else. -/
def Expires (pool : DbPool) (time threshold : Int) : Prop :=
  ∃ turns after, deleteOlderThen pool time threshold turns = .left after ∧
    after = {pool with connections := pool.connections.filter fun entry => time - entry.1 < threshold}

theorem loop_ended (time threshold : Int) (turns : Nat) {state : Loop} (ended : ∀ pool it, state ≠ .turn pool it) :
    loop time threshold turns state = state := by
  cases turns with
  | zero => rfl
  | succ turns =>
    cases state with
    | turn pool it => exact absurd rfl (ended pool it)
    | left => rfl
    | erased => rfl

/-- Where the first connection is old, the increment takes its erased iterator. -/
theorem turn_old {pool : DbPool} {time threshold key : Int} (old : ¬time - key < threshold) :
    turn time threshold pool (some key) = .erased := by
  cases found : pool.connections.find? key with
  | none => simp [turn,found]
  | some conn => simp [turn,found,old,advance]

theorem turn_young {pool : DbPool} {time threshold key : Int} {conn : PoolConn}
    (stored : pool.connections.find? key = some conn) (young : time - key < threshold) :
    turn time threshold pool (some key) = .left pool := by
  simp [turn,stored,young]

theorem filter_young {pool : DbPool} {time threshold : Int}
    (young : ∀ entry ∈ pool.connections.entries, time - entry.1 < threshold) :
    {pool with connections := pool.connections.filter fun entry => time - entry.1 < threshold} = pool := by
  have all : pool.connections.entries.filter (fun entry => decide (time - entry.1 < threshold)) =
      pool.connections.entries := List.filter_eq_self.mpr fun entry member => by simpa using young entry member
  cases pool
  simp [SortedMap.filter,all]

/-- The loop does what it should just where there is nothing to remove. -/
theorem expires_iff (pool : DbPool) (time threshold : Int) :
    Expires pool time threshold ↔ ∀ entry ∈ pool.connections.entries, time - entry.1 < threshold := by
  cases entries : pool.connections.entries with
  | nil =>
    have young : ∀ entry ∈ pool.connections.entries, time - entry.1 < threshold := by simp [entries]
    refine iff_of_true ⟨1,pool,?_,(filter_young young).symm⟩ (by simp)
    simp [deleteOlderThen,SortedMap.next?,entries,loop,turn]
  | cons first rest =>
    have started (turns : Nat) : deleteOlderThen pool time threshold (turns + 1) =
        loop time threshold turns (turn time threshold pool (some first.1)) := by
      simp [deleteOlderThen,SortedMap.next?,entries,loop]
    constructor
    · rintro ⟨turns,after,ended,-⟩
      by_contra some'
      have old : ¬time - first.1 < threshold := by
        intro young
        apply some'
        intro entry member
        have sorted := pool.connections.sorted
        rw [entries] at sorted
        rcases List.mem_cons.mp member with rfl | later
        · exact young
        · have least := (List.pairwise_cons.mp sorted).1 entry later
          omega
      cases turns with
      | zero => simp [deleteOlderThen,loop] at ended
      | succ turns =>
        rw [started,turn_old old,loop_ended _ _ _ (by simp)] at ended
        cases ended
    · intro young
      have stored : pool.connections.find? first.1 = some first.2 := SortedMap.find?_of_mem (by simp [entries])
      refine ⟨1,pool,?_,(filter_young (by rwa [entries])).symm⟩
      rw [started,turn_young stored (young first (by simp))]
      rfl

/-- Where the loop does what it should, it is the pass of the pool. -/
theorem expires_pass {pool : DbPool} {time threshold : Int} (expires : Expires pool time threshold)
    (reached : Int → Bool) : ∃ turns, deleteOlderThen pool time threshold turns =
      .left (pool.deleteOlderThen time threshold reached) := by
  obtain ⟨turns,after,ended,kept⟩ := expires
  have young := (expires_iff pool time threshold).mp ⟨turns,after,ended,kept⟩
  refine ⟨turns,ended.trans (congrArg Loop.left ?_)⟩
  have all : pool.connections.entries.filter
      (fun entry => !DbPool.outdated time threshold reached entry.1) = pool.connections.entries :=
    List.filter_eq_self.mpr fun entry member => by simp [DbPool.outdated,young entry member]
  rw [kept,filter_young young]
  cases pool
  simp [DbPool.deleteOlderThen,SortedMap.filter,all]

theorem erased_used : ¬∀ (pool : DbPool) (time threshold : Int), Expires pool time threshold := by
  intro expires
  let pool : DbPool := ⟨"output",SortedMap.empty.insert 0 ⟨0,"output"⟩⟩
  have young := (expires_iff pool 30 20).mp (expires pool 30 20) (0,⟨0,"output"⟩) (by decide)
  exact absurd young (by decide)

end PoolExpiry
end Call45Aggr
