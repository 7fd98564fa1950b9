import Call45Aggr.Library.Channel
import Call45Aggr.Library.Run
import Mathlib.Data.List.Perm.Subperm
import Mathlib.Data.List.ReduceOption

/-! `PullWorker`: its queue, the counter of its tasks and the loop that runs them, one
access to the queue or the counter a step. -/
namespace Call45Aggr
open Library

/-- A call of `enqueue`, and the event whose pull it asks for. -/
structure Task where
  id : Nat
  event : String
  deriving DecidableEq

/-- The task of the destructor is `none`. -/
inductive WorkingLoop
  | test
  | dequeue
  | subtract (item : Option Task)
  | routine (item : Option Task)
  | exited
  deriving DecidableEq

@[simp] def WorkingLoop.item : WorkingLoop → List (Option Task)
  | .subtract item => [item]
  | _ => []

/-- `adding` has the threads between the two statements of `enqueue`; `below` tells that
the counter was taken below zero. -/
structure PullWorker where
  extractors : List String
  tasksCount : Nat := 0
  queue : Channel Nat (Option Task) := {}
  loop : WorkingLoop := .test
  adding : List (Nat × Task) := []
  created : Nat := 0
  destroyed : Bool := false
  exceptions : List Task := []
  below : Bool := false
  deriving DecidableEq

namespace PullWorker

inductive Action
  | enqueue (thread : Nat) (event : String) (accepted : Bool)
  | fetchAdd (thread : Nat)
  | destroy (thread : Nat)
  | test (appRunning : Bool)
  | waitDequeue (place : Nat)
  | fetchSub
  | finish (thrown : Bool)
  deriving DecidableEq

/-- The count as the `int` it is returned as, up to the sign. -/
def eventsCount (s : PullWorker) : Nat := s.tasksCount % 4294967296

def working (s : PullWorker) : Bool := decide (s.eventsCount ≠ 0)

def copyNames (s : PullWorker) : List String := s.extractors

def free (s : PullWorker) (thread : Nat) : Bool := s.adding.all fun entry => decide (entry.1 ≠ thread)

/-- `fetch_add` and `fetch_sub` are those of `std::atomic_size_t`. -/
def step (s : PullWorker) (action : Action) : Option PullWorker :=
  match s.loop,action with
  | _,.enqueue thread event accepted =>
    if s.free thread = false ∨ s.destroyed = true then none
    else if accepted then
      some {s with
        queue := s.queue.enqueue thread (some ⟨s.created,event⟩)
        adding := s.adding ++ [(thread,⟨s.created,event⟩)]
        created := s.created + 1}
    else some s
  | _,.fetchAdd thread =>
    if s.free thread then none
    else
      some {s with
        tasksCount := (s.tasksCount + 1) % 18446744073709551616
        adding := s.adding.eraseP fun entry => decide (entry.1 = thread)}
  | _,.destroy thread =>
    if s.free thread = false ∨ s.destroyed = true then none
    else some {s with queue := s.queue.enqueue thread none, destroyed := true}
  | .test,.test appRunning => some {s with loop := if appRunning then .dequeue else .exited}
  | .dequeue,.waitDequeue place =>
    (s.queue.dequeue place).map fun taken => {s with queue := taken.2, loop := .subtract taken.1.2}
  | .subtract item,.fetchSub =>
    some {s with
      tasksCount := (s.tasksCount + 18446744073709551615) % 18446744073709551616
      loop := .routine item
      below := s.below || decide (s.tasksCount = 0)}
  | .routine item,.finish thrown =>
    some {s with
      loop := .test
      exceptions := if thrown then s.exceptions ++ item.toList else s.exceptions}
  | _,_ => none

def init (extractors : List String) : PullWorker := {extractors}

/-- What the counter stands for: the tasks not subtracted yet. -/
def counted (s : PullWorker) : List (Option Task) :=
  s.queue.pending.map (·.2) ++ s.loop.item

def running (s : PullWorker) : List Task :=
  match s.loop with
  | .routine item => item.toList
  | _ => []

/-- The tasks queued or running. -/
def pulls (s : PullWorker) : List Task := s.counted.reduceOption ++ s.running

/-- The `enqueue` of the task has returned. -/
def Returned (s : PullWorker) (task : Task) : Prop := ∀ entry ∈ s.adding, entry.2.id ≠ task.id

end PullWorker

def skippedEvents (workers : List PullWorker) : List String :=
  workers.flatMap fun worker => if worker.working then worker.copyNames else []

def excludeEventsSql (workers : List PullWorker) : String :=
  " and event not in ('" ++ String.intercalate "','" (skippedEvents workers) ++ "')"

namespace PullWorker

structure Bookkept (s : PullWorker) : Prop where
  count : s.below = false
  working : ∀ task ∈ s.pulls, s.Returned task → s.working = true
  excluded : ∀ task ∈ s.pulls, s.Returned task → task.event ∈ s.extractors →
    ∀ workers, s ∈ workers → task.event ∈ skippedEvents workers

/-- The counter is not left at zero, nor at a multiple of the range of `int`. -/
def Counts (s : PullWorker) : Action → Prop
  | .fetchAdd _ => (s.tasksCount + 1) % 4294967296 ≠ 0
  | .fetchSub => s.tasksCount ≠ 0 ∧ (s.tasksCount - 1) % 4294967296 ≠ 0
  | _ => True

instance (s : PullWorker) (action : Action) : Decidable (s.Counts action) := by
  unfold Counts
  split <;> infer_instance

/-- The counter is the tasks not subtracted, less those not added yet and that of the
destructor, which never is. -/
structure Balance (counted : List (Option Task)) (tasksCount adding created : Nat) (destroyed : Bool) : Prop where
  balance : tasksCount + adding + destroyed.toNat = counted.length
  ids : (counted.reduceOption.map (·.id)).Nodup
  known : ∀ task ∈ counted.reduceOption, task.id < created
  items : counted.length ≤ counted.reduceOption.length + destroyed.toNat

section
variable {counted other : List (Option Task)} {tasksCount adding created : Nat} {destroyed : Bool}

theorem Balance.perm (same : other.Perm counted) (b : Balance counted tasksCount adding created destroyed) :
    Balance other tasksCount adding created destroyed := by
  have tasks : other.reduceOption.Perm counted.reduceOption := same.filterMap id
  refine ⟨by rw [same.length_eq]; exact b.balance,(tasks.map _).nodup_iff.mpr b.ids,?_,?_⟩
  · intro task member
    exact b.known task (tasks.mem_iff.mp member)
  · rw [same.length_eq,tasks.length_eq]
    exact b.items

theorem Balance.enqueue (b : Balance counted tasksCount adding created destroyed) (event : String) :
    Balance (some ⟨created,event⟩ :: counted) tasksCount (adding + 1) (created + 1) destroyed := by
  obtain ⟨balance,ids,known,items⟩ := b
  refine ⟨by simp only [List.length_cons]; omega,?_,?_,?_⟩
  · rw [List.reduceOption_cons_of_some,List.map_cons,List.nodup_cons]
    refine ⟨fun member => ?_,ids⟩
    obtain ⟨task,inside,same⟩ := List.mem_map.mp member
    exact Nat.ne_of_lt (known task inside) same
  · intro task member
    rw [List.reduceOption_cons_of_some,List.mem_cons] at member
    rcases member with rfl | inside
    · exact Nat.lt_succ_self created
    · exact Nat.lt_succ_of_lt (known task inside)
  · rw [List.reduceOption_cons_of_some,List.length_cons,List.length_cons]
    omega

theorem Balance.destroy (b : Balance counted tasksCount adding created false) :
    Balance (none :: counted) tasksCount adding created true := by
  obtain ⟨balance,ids,known,items⟩ := b
  simp only [Bool.toNat_false] at balance items
  refine ⟨?_,by rwa [List.reduceOption_cons_of_none],?_,?_⟩
  · simp only [Bool.toNat_true,List.length_cons]
    omega
  · rwa [List.reduceOption_cons_of_none]
  · rw [List.reduceOption_cons_of_none,List.length_cons,Bool.toNat_true]
    omega

theorem Balance.fetchSub {item : Option Task} {rest : List (Option Task)}
    (b : Balance (item :: rest) (tasksCount + 1) adding created destroyed) :
    Balance rest tasksCount adding created destroyed := by
  obtain ⟨balance,ids,known,items⟩ := b
  rw [List.length_cons] at balance items
  cases item with
  | none =>
    rw [List.reduceOption_cons_of_none] at ids known items
    exact ⟨by omega,ids,known,by omega⟩
  | some task =>
    rw [List.reduceOption_cons_of_some] at ids known items
    rw [List.length_cons] at items
    refine ⟨by omega,?_,fun task member => known task (List.mem_cons_of_mem _ member),by omega⟩
    rw [List.map_cons] at ids
    exact (List.nodup_cons.mp ids).2

end

/-- While the counter is not zero a task is left whose `enqueue` has returned. -/
theorem exists_returned {s : PullWorker}
    (b : Balance s.counted s.tasksCount s.adding.length s.created s.destroyed) (positive : s.tasksCount ≠ 0) :
    ∃ task ∈ s.counted.reduceOption, s.Returned task := by
  by_contra every
  have inside : s.counted.reduceOption.map (·.id) ⊆ s.adding.map (·.2.id) := by
    intro id member
    obtain ⟨task,here,rfl⟩ := List.mem_map.mp member
    by_contra outside
    refine every ⟨task,here,fun entry adding same => ?_⟩
    exact outside (same ▸ List.mem_map_of_mem adding)
  have fewer := (b.ids.subperm inside).length_le
  have balance := b.balance
  have items := b.items
  simp only [List.length_map] at fewer
  omega

end PullWorker

theorem mem_skippedEvents {worker : PullWorker} {workers : List PullWorker} (member : worker ∈ workers)
    (working : worker.working = true) {event : String} (own : event ∈ worker.extractors) :
    event ∈ skippedEvents workers := by
  refine List.mem_flatMap.mpr ⟨worker,member,?_⟩
  rw [if_pos working]
  exact own

namespace PullWorker

theorem bookkept_of_working {s : PullWorker} (count : s.below = false) (working : s.working = true) :
    s.Bookkept :=
  ⟨count,fun _ _ _ => working,fun _ _ _ own _ member => mem_skippedEvents member working own⟩

theorem Bookkept.keep {s next : PullWorker} (kept : s.Bookkept) (below : next.below = s.below)
    (count : next.tasksCount = s.tasksCount)
    (pulls : ∀ task ∈ next.pulls, next.Returned task → task ∈ s.pulls ∧ s.Returned task) : next.Bookkept := by
  have working : ∀ task ∈ next.pulls, next.Returned task → next.working = true := by
    intro task member returned
    obtain ⟨before,done⟩ := pulls task member returned
    have known := kept.working task before done
    rwa [PullWorker.working,eventsCount,count]
  refine ⟨below.trans kept.count,working,fun task member returned own workers here => ?_⟩
  exact mem_skippedEvents here (working task member returned) own

structure Holds (s : PullWorker) : Prop extends Bookkept s where
  balance : Balance s.counted s.tasksCount s.adding.length s.created s.destroyed
  small : s.tasksCount < 4294967296

theorem counted_enqueue (s : PullWorker) (thread : Nat) (item : Option Task) :
    ((s.queue.enqueue thread item).pending.map (·.2) ++ s.loop.item).Perm (item :: s.counted) := by
  simp only [Channel.enqueue,List.map_append,List.map_cons,List.map_nil,List.append_assoc,
    List.singleton_append,counted]
  exact List.perm_middle

/-- After the counter moved, the books are kept exactly when it is not zero as an `int`. -/
theorem bookkept_iff {s : PullWorker} (count : s.below = false)
    (left : s.tasksCount % 4294967296 = 0 → ∃ task ∈ s.pulls, s.Returned task) :
    s.Bookkept ↔ s.tasksCount % 4294967296 ≠ 0 := by
  constructor
  · intro kept none
    obtain ⟨task,member,returned⟩ := left none
    have working := kept.working task member returned
    simp [PullWorker.working,eventsCount,none] at working
  · intro counts
    exact bookkept_of_working count (decide_eq_true counts)

theorem fetchAdd_holds {s : PullWorker} (holds : s.Holds) {thread : Nat} (busy : s.free thread = false)
    {next : PullWorker} (added : next = {s with
      tasksCount := (s.tasksCount + 1) % 18446744073709551616
      adding := s.adding.eraseP fun entry => decide (entry.1 = thread)}) :
    (next.Bookkept ↔ (s.tasksCount + 1) % 4294967296 ≠ 0) ∧
      ((s.tasksCount + 1) % 4294967296 ≠ 0 → next.Holds) := by
  have small := holds.small
  obtain ⟨entry,member,same⟩ : ∃ entry ∈ s.adding, entry.1 = thread := by simpa [free] using busy
  have count : next.tasksCount = s.tasksCount + 1 := by
    rw [added]
    exact Nat.mod_eq_of_lt (by omega)
  have length : next.adding.length + 1 = s.adding.length := by
    have one : (s.adding.eraseP fun entry => decide (entry.1 = thread)).length = s.adding.length - 1 :=
      List.length_eraseP_of_mem member (by simpa using same)
    have present := List.length_pos_of_mem member
    rw [added]
    dsimp only
    omega
  have balance : Balance next.counted next.tasksCount next.adding.length next.created next.destroyed := by
    obtain ⟨balance,ids,known,items⟩ := holds.balance
    have same : next.counted = s.counted := by rw [added]; rfl
    have created : next.created = s.created := by rw [added]
    have destroyed : next.destroyed = s.destroyed := by rw [added]
    rw [same,created,destroyed]
    exact ⟨by omega,ids,known,items⟩
  have books : next.Bookkept ↔ (s.tasksCount + 1) % 4294967296 ≠ 0 := by
    rw [← count]
    refine bookkept_iff (by rw [added]; exact holds.count) fun _ => ?_
    obtain ⟨task,inside,returned⟩ := exists_returned balance (by omega)
    exact ⟨task,List.mem_append_left _ inside,returned⟩
  exact ⟨books,fun counts => ⟨books.mpr counts,balance,by omega⟩⟩

theorem fetchSub_holds {s : PullWorker} (holds : s.Holds) {item : Option Task} (here : s.loop = .subtract item)
    {next : PullWorker} (taken : next = {s with
      tasksCount := (s.tasksCount + 18446744073709551615) % 18446744073709551616
      loop := .routine item
      below := s.below || decide (s.tasksCount = 0)}) :
    (next.Bookkept ↔ s.tasksCount ≠ 0 ∧ (s.tasksCount - 1) % 4294967296 ≠ 0) ∧
      (s.tasksCount ≠ 0 ∧ (s.tasksCount - 1) % 4294967296 ≠ 0 → next.Holds) := by
  have small := holds.small
  rcases Nat.eq_zero_or_pos s.tasksCount with zero | positive
  · have below : next.below = true := by rw [taken]; simp [zero]
    refine ⟨⟨fun kept => ?_,fun counts => absurd zero counts.1⟩,fun counts => absurd zero counts.1⟩
    rw [kept.count] at below
    contradiction
  have count : next.tasksCount = s.tasksCount - 1 := by
    rw [taken]
    dsimp only
    omega
  have adding : next.adding = s.adding := by rw [taken]
  have pulls : next.pulls = s.counted.reduceOption := by
    rw [taken]
    cases item <;> simp [PullWorker.pulls,counted,running,here,List.reduceOption_append]
  have balance : Balance next.counted next.tasksCount next.adding.length next.created next.destroyed := by
    have parts : s.counted.Perm (item :: s.queue.pending.map (·.2)) := by
      simp only [counted,here,WorkingLoop.item]
      exact List.perm_append_comm
    have before := holds.balance.perm parts.symm
    have one : s.tasksCount = next.tasksCount + 1 := by omega
    rw [one] at before
    have after := before.fetchSub
    have same : next.counted = s.queue.pending.map (·.2) := by rw [taken]; simp [counted]
    have created : next.created = s.created := by rw [taken]
    have destroyed : next.destroyed = s.destroyed := by rw [taken]
    rw [same,adding,created,destroyed]
    exact after
  have books : next.Bookkept ↔ (s.tasksCount - 1) % 4294967296 ≠ 0 := by
    rw [← count]
    refine bookkept_iff ?_ fun _ => ?_
    · rw [taken]
      simp [holds.count,Nat.ne_of_gt positive]
    · obtain ⟨task,inside,returned⟩ := exists_returned holds.balance (Nat.ne_of_gt positive)
      refine ⟨task,pulls ▸ inside,?_⟩
      rw [Returned,adding]
      exact returned
  refine ⟨books.trans ⟨fun counts => ⟨Nat.ne_of_gt positive,counts⟩,And.right⟩,fun counts => ?_⟩
  exact ⟨books.mpr counts.2,balance,by omega⟩

theorem enqueue_holds {s : PullWorker} (holds : s.Holds) (thread : Nat) (event : String) : Holds {s with
    queue := s.queue.enqueue thread (some ⟨s.created,event⟩)
    adding := s.adding ++ [(thread,⟨s.created,event⟩)]
    created := s.created + 1} where
  toBookkept := by
    refine holds.keep rfl rfl fun task member returned => ?_
    have fresh : task.id ≠ s.created := by
      have pending := returned (thread,⟨s.created,event⟩) (by simp)
      exact fun same => pending same.symm
    refine ⟨?_,fun entry member => returned entry (List.mem_append_left _ member)⟩
    rcases List.mem_append.mp member with queued | running
    · have inside := (((counted_enqueue s thread (some ⟨s.created,event⟩)).filterMap id).mem_iff).mp queued
      refine List.mem_append_left _ ?_
      rcases List.mem_cons.mp inside with rfl | before
      · exact absurd rfl fresh
      · exact before
    · exact List.mem_append_right _ running
  balance := by
    rw [List.length_append]
    exact (holds.balance.enqueue event).perm (counted_enqueue s thread _)
  small := holds.small

theorem destroy_holds {s : PullWorker} (holds : s.Holds) (alive : s.destroyed = false) (thread : Nat) :
    Holds {s with queue := s.queue.enqueue thread none, destroyed := true} where
  toBookkept := by
    refine holds.keep rfl rfl fun task member returned => ⟨?_,returned⟩
    rcases List.mem_append.mp member with queued | running
    · exact List.mem_append_left _ ((((counted_enqueue s thread none).filterMap id).mem_iff).mp queued)
    · exact List.mem_append_right _ running
  balance := by
    have before := holds.balance
    rw [alive] at before
    exact before.destroy.perm (counted_enqueue s thread none)
  small := holds.small

theorem waitDequeue_holds {s : PullWorker} (holds : s.Holds) (here : s.loop = .dequeue) {place : Nat}
    {taken : (Nat × Option Task) × Channel Nat (Option Task)} (dequeued : s.queue.dequeue place = some taken) :
    Holds {s with queue := taken.2, loop := .subtract taken.1.2} := by
  have same : (taken.2.pending.map (·.2) ++ [taken.1.2]).Perm s.counted := by
    have parts := (Channel.perm_dequeue dequeued).map (·.2)
    simp only [counted,here,WorkingLoop.item,List.append_nil]
    exact List.perm_append_comm.trans parts.symm
  refine ⟨holds.keep rfl rfl fun task member returned => ⟨?_,returned⟩,holds.balance.perm same,holds.small⟩
  rcases List.mem_append.mp member with queued | running
  · exact List.mem_append_left _ ((same.filterMap id).mem_iff.mp queued)
  · contradiction

/-- The loop goes on where no task is taken from the queue or subtracted. -/
theorem loop_holds {s : PullWorker} (holds : s.Holds) {loop : WorkingLoop} (exceptions : List Task)
    (item : s.loop.item = []) (next : loop.item = []) (idle : loop = .test ∨ loop = .dequeue ∨ loop = .exited) :
    Holds {s with loop := loop, exceptions := exceptions} := by
  have same : s.queue.pending.map (·.2) ++ loop.item = s.counted := by rw [counted,item,next]
  refine ⟨holds.keep rfl rfl fun task member returned => ⟨?_,returned⟩,?_,holds.small⟩
  · rcases List.mem_append.mp member with queued | running
    · have queued : task ∈ (s.queue.pending.map (·.2) ++ loop.item).reduceOption := queued
      rw [same] at queued
      exact List.mem_append_left _ queued
    · obtain rfl | rfl | rfl := idle <;> contradiction
  · have balance := holds.balance
    rw [← same] at balance
    exact balance

theorem step_holds {s next : PullWorker} {action : Action} (holds : s.Holds)
    (stepped : s.step action = some next) :
    (next.Bookkept ↔ s.Counts action) ∧ (s.Counts action → next.Holds) := by
  have keep (kept : next.Holds) (counts : s.Counts action) :
      (next.Bookkept ↔ s.Counts action) ∧ (s.Counts action → next.Holds) :=
    ⟨iff_of_true kept.toBookkept counts,fun _ => kept⟩
  unfold step at stepped
  split at stepped
  next thread event accepted =>
    split at stepped
    next => contradiction
    next =>
      split at stepped
      next => cases stepped; exact keep (enqueue_holds holds thread event) trivial
      next => cases stepped; exact keep holds trivial
  next thread =>
    split at stepped
    next => contradiction
    next busy => exact fetchAdd_holds holds (Bool.eq_false_iff.mpr busy) (Option.some.inj stepped).symm
  next thread =>
    split at stepped
    next => contradiction
    next usable =>
      cases stepped
      exact keep (destroy_holds holds (by simpa using (not_or.mp usable).2) thread) trivial
  next appRunning here =>
    cases stepped
    refine keep (loop_holds holds s.exceptions (by simp [here]) ?_ ?_) trivial
    · cases appRunning <;> rfl
    · cases appRunning <;> simp
  next place here =>
    obtain ⟨taken,dequeued,rfl⟩ := Option.map_eq_some_iff.mp stepped
    exact keep (waitDequeue_holds holds here dequeued) trivial
  next item here => exact fetchSub_holds holds here (Option.some.inj stepped).symm
  next item thrown here =>
    cases stepped
    exact keep (loop_holds holds _ (by simp [here]) rfl (.inl rfl)) trivial
  next => contradiction

theorem init_holds (extractors : List String) : (init extractors).Holds :=
  ⟨⟨rfl,fun _ member => by simp [init,pulls,counted,running] at member,
      fun _ member => by simp [init,pulls,counted,running] at member⟩,
    ⟨rfl,by simp [init,counted],by simp [init,counted],by simp [init,counted]⟩,by simp [init]⟩

/-- Every state on the way has its counter not below zero and `working` true for each
task returned and not finished, exactly when no access leaves the counter at zero. -/
theorem bookkeeping_iff (extractors : List String) (actions : List Action) (final : PullWorker)
    (executed : execute step Always actions (init extractors) = some final) :
    (∀ earlier reached, earlier <+: actions → execute step Always earlier (init extractors) = some reached →
      reached.Bookkept) ↔ execute step Counts actions (init extractors) = some final :=
  execute_prefixes_iff_of (fun _ => Holds.toBookkept)
    (fun _ _ _ holds stepped => (step_holds holds stepped).1)
    (fun _ _ _ holds stepped => (step_holds holds stepped).2) (init_holds extractors) actions executed

def backlog : List Action :=
  [.enqueue 1 "a" true,.fetchAdd 1,.enqueue 1 "b" true,.enqueue 2 "a" true,.fetchAdd 1,.test true,
    .waitDequeue 0,.fetchSub,.fetchAdd 2,.finish true]

theorem bookkeeping_iff_backlog : ∃ s : PullWorker, s.pulls.length = 2 ∧ s.exceptions ≠ [] ∧
    ∀ earlier reached, earlier <+: backlog →
      execute step Always earlier (init ["a","b"]) = some reached → reached.Bookkept := by
  obtain ⟨s,ran,ends⟩ := (Option.any_eq_true _ _).mp (by decide :
    (execute step Counts backlog (init ["a","b"])).any
      (fun s => decide (s.pulls.length = 2 ∧ s.exceptions ≠ [])) = true)
  have ends := of_decide_eq_true ends
  exact ⟨s,ends.1,ends.2,
    (bookkeeping_iff ["a","b"] backlog s (execute_always backlog ran)).mpr ran⟩

/-- A single task is not counted while it runs. -/
theorem running_not_working : ¬∀ s : PullWorker, Run step Always (init ["a"]) s → s.Bookkept := by
  intro sound
  obtain ⟨s,run,good⟩ := exists_run step Always (init ["a"])
    (fun s => decide (s.pulls = [⟨0,"a"⟩] ∧ s.adding = [] ∧ s.working = false))
    [.enqueue 1 "a" true,.fetchAdd 1,.test true,.waitDequeue 0,.fetchSub] (by decide)
  obtain ⟨pulls,adding,idle⟩ := of_decide_eq_true good
  have working := (sound s run).working ⟨0,"a"⟩ (by simp [pulls]) (by simp [Returned,adding])
  rw [idle] at working
  contradiction

end PullWorker
end Call45Aggr
