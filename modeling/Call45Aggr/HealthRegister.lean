import Call45Aggr.Library.Run
import Call45Aggr.Library.SortedMap
import Mathlib.Data.String.Basic
import Mathlib.Order.Lattice

/-! The register of the last reported condition of each item, and what a registration
does to the severity on show. Every operation holds the mutex, so it is one step. -/
namespace Call45Aggr
open Library

inductive HealthStatus
  | warning
  | error
  | critical
  deriving DecidableEq

namespace HealthStatus

def value : HealthStatus → Nat
  | .warning => 1
  | .error => 2
  | .critical => 3

def text : HealthStatus → String
  | .warning => "STATUS_WARNING"
  | .error => "STATUS_ERROR"
  | .critical => "STATUS_CRITICAL"

theorem value_injective {p q : HealthStatus} (same : p.value = q.value) : p = q := by
  cases p <;> cases q <;> simp [value] at same <;> rfl

end HealthStatus

structure HealthState where
  item : String
  status : String
  statusMessage : String
  statusType : HealthStatus
  lastTime : Int
  deriving DecidableEq

structure HealthRegister where
  values : SortedMap String HealthState := .empty

namespace HealthRegister

def outdated (time : Int) (state : HealthState) : Bool := decide (state.lastTime < time - 1800)

def eraseOldMessages (r : HealthRegister) (time : Int) : HealthRegister :=
  {values := r.values.filter fun entry => !outdated time entry.2}

def assign (r : HealthRegister) (statusType : HealthStatus) (item statusMessage : String)
    (stored : Int) : HealthRegister :=
  {values := r.values.insert item ⟨item,statusType.text,statusMessage,statusType,stored⟩}

/-- The two clocks are the reads of `erase_old_messages` and of the assignment. -/
def registerMessage (r : HealthRegister) (statusType : HealthStatus) (item statusMessage : String)
    (time stored : Int) : HealthRegister :=
  let r := r.eraseOldMessages time
  match r.values.find? item with
  | some state =>
    if state.statusType.value < statusType.value then r
    else r.assign statusType item statusMessage stored
  | none => r.assign statusType item statusMessage stored

def clear (_ : HealthRegister) : HealthRegister := {}

def states (r : HealthRegister) (time : Int) : HealthRegister × List HealthState :=
  let r := r.eraseOldMessages time
  (r,r.values.values)

def shown (r : HealthRegister) (item : String) (time : Int) : Option HealthState :=
  (r.values.find? item).filter fun state => !outdated time state

theorem eraseOldMessages_find? (r : HealthRegister) (item : String) (time : Int) :
    (r.eraseOldMessages time).values.find? item = r.shown item time :=
  r.values.find?_filter_eq _ item

/-- Every entry is filed under its item with the text of its type. -/
def Filed (r : HealthRegister) : Prop :=
  ∀ item state, r.values.find? item = some state →
    state.item = item ∧ state.status = state.statusType.text

theorem eraseOldMessages_filed {r : HealthRegister} (filed : r.Filed) (time : Int) :
    (r.eraseOldMessages time).Filed := by
  intro item state found
  exact filed item state (SortedMap.find?_filter.mp found).1

@[simp] theorem assign_find? (r : HealthRegister) (statusType : HealthStatus)
    (item statusMessage other : String) (stored : Int) :
    (r.assign statusType item statusMessage stored).values.find? other =
      if other = item then some ⟨item,statusType.text,statusMessage,statusType,stored⟩
      else r.values.find? other :=
  SortedMap.find?_insert _ _ _ _

theorem registerMessage_filed {r : HealthRegister} (filed : r.Filed) (statusType : HealthStatus)
    (item statusMessage : String) (time stored : Int) :
    (r.registerMessage statusType item statusMessage time stored).Filed := by
  have kept := eraseOldMessages_filed filed time
  have assigned : ((r.eraseOldMessages time).assign statusType item statusMessage stored).Filed := by
    intro other state found
    rw [assign_find?] at found
    split_ifs at found with same
    · cases Option.some.inj found
      exact ⟨same.symm,rfl⟩
    · exact kept other state found
  unfold registerMessage
  dsimp only
  split
  · split
    · exact kept
    · exact assigned
  · exact assigned

theorem registerMessage_find? (r : HealthRegister) (statusType : HealthStatus)
    (item statusMessage : String) (time stored : Int) :
    (r.registerMessage statusType item statusMessage time stored).values.find? item =
      match r.shown item time with
      | some state =>
        if state.statusType.value < statusType.value then some state
        else some ⟨item,statusType.text,statusMessage,statusType,stored⟩
      | none => some ⟨item,statusType.text,statusMessage,statusType,stored⟩ := by
  rw [← eraseOldMessages_find?]
  unfold registerMessage
  dsimp only
  split
  next state found => split <;> simp [found]
  next => simp

end HealthRegister

structure Registration where
  statusType : HealthStatus
  item : String
  time : Int
  before : HealthRegister
  after : HealthRegister

/-- An unexpired entry of the item is not replaced by one of lower severity, and what
the register then holds is at least as severe as what was registered. -/
structure Registration.Unmasked (r : Registration) : Prop where
  kept : ∀ old new, r.before.values.find? r.item = some old → r.time - 1800 ≤ old.lastTime →
    r.after.values.find? r.item = some new → old.statusType.value ≤ new.statusType.value
  stored : ∃ new, r.after.values.find? r.item = some new ∧ r.statusType.value ≤ new.statusType.value

structure Monitored where
  register : HealthRegister := {}
  clock : Int
  calls : List Registration := []

namespace Monitored

inductive Action
  | register (statusType : HealthStatus) (item statusMessage : String) (time stored : Int)
  | states (time : Int)
  | clear

def step (s : Monitored) : Action → Option Monitored
  | .register statusType item statusMessage time stored =>
    if s.clock ≤ time ∧ time ≤ stored then
      let after := s.register.registerMessage statusType item statusMessage time stored
      some {
        register := after
        clock := stored
        calls := s.calls ++ [⟨statusType,item,time,s.register,after⟩]}
    else none
  | .states time =>
    if s.clock ≤ time then some {s with register := (s.register.states time).1,clock := time} else none
  | .clear => some {s with register := s.register.clear}

theorem run_filed {start : Int} {s : Monitored} (run : Run step Always {clock := start} s) :
    s.register.Filed := by
  refine @Run.invariant _ _ _ _ _ s (fun s => s.register.Filed) run (by simp [HealthRegister.Filed])
    fun state next action _ filed _ stepped => ?_
  cases action with
  | register statusType item statusMessage time stored =>
    simp only [step] at stepped
    split at stepped
    next =>
      cases Option.some.inj stepped
      exact HealthRegister.registerMessage_filed filed statusType item statusMessage time stored
    next => contradiction
  | states time =>
    simp only [step] at stepped
    split at stepped
    next =>
      cases Option.some.inj stepped
      exact HealthRegister.eraseOldMessages_filed filed time
    next => contradiction
  | clear =>
    cases Option.some.inj stepped
    simp [HealthRegister.Filed,HealthRegister.clear]

/-- A registered item has no unexpired entry of another severity. -/
def SameSeverity (s : Monitored) : Action → Prop
  | .register statusType item _ time _ =>
    ∀ state ∈ s.register.values.find? item, time - 1800 ≤ state.lastTime → state.statusType = statusType
  | _ => True

instance (s : Monitored) (action : Action) : Decidable (s.SameSeverity action) := by
  unfold SameSeverity
  split <;> infer_instance

def Unmasked (s : Monitored) : Prop := ∀ call ∈ s.calls, call.Unmasked

theorem registration_unmasked_iff (r : HealthRegister) (statusType : HealthStatus)
    (item statusMessage : String) (time stored : Int) :
    Registration.Unmasked ⟨statusType,item,time,r,
        r.registerMessage statusType item statusMessage time stored⟩ ↔
      ∀ state ∈ r.values.find? item, time - 1800 ≤ state.lastTime → state.statusType = statusType := by
  have left := r.registerMessage_find? statusType item statusMessage time stored
  cases found : r.values.find? item with
  | none =>
    simp only [HealthRegister.shown,found,Option.filter_none] at left
    refine ⟨by simp,fun _ => ⟨?_,⟨_,left,le_rfl⟩⟩⟩
    intro old new present
    simp [found] at present
  | some state =>
    by_cases fresh : time - 1800 ≤ state.lastTime
    · have shown : r.shown item time = some state := by
        simp [HealthRegister.shown,HealthRegister.outdated,found,fresh]
      simp only [shown] at left
      constructor
      · intro ⟨kept,new,present,above⟩ other same _
        cases Option.some.inj same
        have severer := kept state new found fresh present
        apply HealthStatus.value_injective
        rw [left] at present
        dsimp only at above
        split_ifs at present with less
        · cases Option.some.inj present
          omega
        · cases Option.some.inj present
          dsimp only at severer
          omega
      · intro same
        have equal : state.statusType = statusType := same state rfl fresh
        simp only [equal,lt_irrefl,if_false] at left
        refine ⟨?_,⟨_,left,le_rfl⟩⟩
        intro old new was _ present
        dsimp only at was present
        cases Option.some.inj (found ▸ was)
        cases Option.some.inj (left ▸ present)
        rw [equal]
    · have hidden : r.shown item time = none := by
        simp [HealthRegister.shown,HealthRegister.outdated,found]
        omega
      simp only [hidden] at left
      refine ⟨?_,fun _ => ⟨?_,⟨_,left,le_rfl⟩⟩⟩
      · intro _ other same unexpired
        cases Option.some.inj same
        exact absurd unexpired fresh
      · intro old new was unexpired
        dsimp only at was unexpired
        cases Option.some.inj (found ▸ was)
        exact absurd unexpired fresh

theorem step_unmasked {s next : Monitored} {action : Action} (stepped : s.step action = some next) :
    next.Unmasked ↔ s.Unmasked ∧ s.SameSeverity action := by
  cases action with
  | register statusType item statusMessage time stored =>
    simp only [step] at stepped
    split at stepped
    next =>
      cases Option.some.inj stepped
      rw [SameSeverity,← registration_unmasked_iff s.register statusType item statusMessage time stored]
      simp only [Unmasked,List.mem_append,List.mem_singleton]
      constructor
      · intro all
        exact ⟨fun call old => all call (.inl old),all _ (.inr rfl)⟩
      · intro ⟨before,now⟩ call either
        rcases either with old | rfl
        · exact before call old
        · exact now
    next => contradiction
  | states time =>
    simp only [step] at stepped
    split at stepped
    next =>
      cases Option.some.inj stepped
      simp [Unmasked,SameSeverity]
    next => contradiction
  | clear =>
    cases Option.some.inj stepped
    simp [Unmasked,SameSeverity]

/-- No registration of a history masks a severity exactly when each finds its item
without an unexpired entry or with one of the same severity. -/
theorem severity_kept_iff (start : Int) (actions : List Action) (s : Monitored)
    (ran : execute step Always actions {clock := start} = some s) :
    s.Unmasked ↔ execute step SameSeverity actions {clock := start} = some s := by
  have exactly : s.Unmasked ↔ Unmasked {clock := start} ∧
      execute step SameSeverity actions {clock := start} = some s :=
    execute_iff (fun _ _ _ _ stepped => step_unmasked stepped) .start actions ran
  simpa [Unmasked] using exactly

theorem severity_kept_renewed : ∃ s : Monitored, s.calls.length = 3 ∧ s.Unmasked := by
  obtain ⟨s,ran,good⟩ := (Option.any_eq_true _ _).mp
    (by decide : (execute step SameSeverity
      [.register .error "loader" "first" 0 0,.register .error "loader" "again" 1800 1801,.states 2000,
        .register .critical "loader" "much later" 3602 3602] {clock := 0}).any
        (fun s => s.calls.length == 3) = true)
  exact ⟨s,by simpa using good,(severity_kept_iff 0 _ s (execute_always _ ran)).mpr ran⟩

theorem critical_masked : ¬∀ (start : Int) (s : Monitored),
    Run step Always {clock := start} s → s.Unmasked := by
  intro unmasked
  obtain ⟨s,run,good⟩ := exists_run step Always {clock := 0}
    (fun s : Monitored => s.calls.any fun call =>
      (call.before.values.find? call.item).any fun old : HealthState =>
        decide (call.time - 1800 ≤ old.lastTime) &&
          (call.after.values.find? call.item).any fun new : HealthState =>
            decide (new.statusType.value < old.statusType.value))
    [.register .critical "loader" "table lost" 0 0,.register .warning "loader" "slow" 1 1] (by decide)
  obtain ⟨call,member,worse⟩ := List.any_eq_true.mp good
  simp only [Option.any_eq_true,Bool.and_eq_true,decide_eq_true_eq] at worse
  obtain ⟨old,was,fresh,new,present,less⟩ := worse
  have kept := (unmasked 0 s run call member).kept old new was fresh present
  omega

end Monitored
end Call45Aggr
