import Call45Aggr.Library.Run
import Call45Aggr.Library.SortedMap
import Mathlib.Data.String.Basic

/-! The timer handlers of the cyclic tasks and the registry that stops them. `cancel`
aborts a wait only while its handler is not queued yet. -/
namespace Call45Aggr
open Library

/-- Where the wait of the timer and its handler stand: between `asyncWait` and `waiting`
the new timer is in place and nothing waits on it. -/
inductive TaskPhase
  | waiting
  | queued (aborted : Bool)
  | routine
  | arm
  | asyncWait
  | reset
  deriving DecidableEq

namespace TaskPhase

@[simp] def live : TaskPhase → Bool
  | .queued aborted => !aborted
  | .reset => false
  | _ => true

/-- Events until the routine starts again. -/
@[simp] def distance : TaskPhase → Nat
  | .queued _ => 0
  | .waiting => 1
  | .asyncWait => 2
  | .arm => 3
  | .routine => 4
  | .reset => 0

def inProgress : TaskPhase → Nat
  | .routine | .arm | .asyncWait => 1
  | _ => 0

end TaskPhase

structure ErrorInfo where
  message : String
  count : Nat
  deriving DecidableEq

/-- `arms` counts the waits started, `stopped` that `stop` has returned. -/
structure CyclicTask where
  name : String
  phase : TaskPhase := .waiting
  errors : List ErrorInfo := []
  errorsCount : Nat := 0
  totalRuns : Nat := 0
  arms : Nat := 1
  stopped : Bool := false
  deriving DecidableEq

inductive TaskEvent
  | expire
  | handler
  | returned
  | threw (what : String)
  | arm
  | asyncWait
  deriving DecidableEq

namespace CyclicTask

def stop (task : CyclicTask) : CyclicTask :=
  {task with
    phase := if task.phase = .waiting then .queued true else task.phase
    stopped := true}

/-- The ring of errors keeps the last ten. -/
def saveError (task : CyclicTask) (text : String) : CyclicTask :=
  match task.errors.getLast? with
  | some last =>
    if last.message = text then
      {task with
        errors := task.errors.dropLast ++ [{last with count := (last.count + 1) % 18446744073709551616}]}
    else
      {task with
        errors := (task.errors ++ [ErrorInfo.mk text 1]).drop (task.errors.length - 9)
        errorsCount := (task.errorsCount + 1) % 18446744073709551616}
  | none =>
    {task with
      errors := [ErrorInfo.mk text 1]
      errorsCount := (task.errorsCount + 1) % 18446744073709551616}

def step (task : CyclicTask) (event : TaskEvent) : Option CyclicTask :=
  match task.phase,event with
  | .waiting,.expire => some {task with phase := .queued false}
  | .queued true,.handler => some {task with phase := .reset}
  | .queued false,.handler => some {task with phase := .routine, totalRuns := task.totalRuns + 1}
  | .routine,.returned => some {task with phase := .arm}
  | .routine,.threw what => some {task.saveError what with phase := .arm}
  | .arm,.arm => some {task with phase := .asyncWait}
  | .asyncWait,.asyncWait => some {task with phase := .waiting, arms := task.arms + 1}
  | _,_ => none

end CyclicTask

/-- `tasks` are the task objects in order of their creation and `cyclicTasks` their
places by name; a thread in `registering` has deleted and not yet registered. -/
structure Application where
  tasks : List CyclicTask := []
  cyclicTasks : SortedMap String Nat := .empty
  registering : List String := []

namespace Application

inductive Action
  | task (place : Nat) (event : TaskEvent)
  | deleteCyclicTask (name : String)
  | reregister (name : String)
  | registerCyclicTask (name : String)
  deriving DecidableEq

def deleteCyclicTask (s : Application) (name : String) : Application :=
  match s.cyclicTasks.find? name with
  | some place =>
    {s with
      tasks := s.tasks.modify place CyclicTask.stop
      cyclicTasks := s.cyclicTasks.erase name}
  | none => s

def registerCyclicTask (s : Application) (name : String) : Application :=
  {s with
    tasks := s.tasks ++ [{name}]
    cyclicTasks := s.cyclicTasks.insert name s.tasks.length}

/-- `app::register_cyclic_task` is `reregister`, where it deletes, and then
`registerCyclicTask`; each of the two holds the mutex by itself. -/
def step (s : Application) : Action → Option Application
  | .task place event => do
    let task ← s.tasks[place]?
    let next ← task.step event
    return {s with tasks := s.tasks.set place next}
  | .deleteCyclicTask name => some (s.deleteCyclicTask name)
  | .reregister name =>
    some {s.deleteCyclicTask name with registering := name :: s.registering}
  | .registerCyclicTask name =>
    if name ∈ s.registering then
      some {s.registerCyclicTask name with registering := s.registering.erase name}
    else none

/-- The application registers these itself, without deleting first. -/
def init : Application :=
  {registering := ["source_db_pool_cleaner","online_db_pool_cleaner","output_db_pool_cleaner",
    "logs_flusher","logs_cleaner"]}

/-- In no continuation does the routine start again, or the timer get armed again but by
the invocation in progress. -/
def StaysStopped (s : Application) (place : Nat) : Prop :=
  ∀ later, Run step Always s later → ∀ task ∈ s.tasks[place]?, ∀ after ∈ later.tasks[place]?,
    after.totalRuns = task.totalRuns ∧ after.arms ≤ task.arms + task.phase.inProgress

def KeepsRunning (s : Application) (place : Nat) : Prop :=
  ∃ later, Run step Always s later ∧ ∃ task ∈ s.tasks[place]?, ∃ after ∈ later.tasks[place]?,
    task.totalRuns < after.totalRuns

structure StopsHold (s : Application) : Prop where
  stopped : ∀ place, ∀ task ∈ s.tasks[place]?, task.stopped = true → s.StaysStopped place
  one : ∀ place other, ∀ task ∈ s.tasks[place]?, ∀ same ∈ s.tasks[other]?, task.name = same.name →
    s.KeepsRunning place → s.KeepsRunning other → place = other

/-- A stop meets the wait of the timer, and no task is put in the place of another. -/
def Cancels (s : Application) : Action → Prop
  | .task _ _ => True
  | .deleteCyclicTask name | .reregister name =>
    ∀ place ∈ s.cyclicTasks.find? name, ∀ task ∈ s.tasks[place]?, task.phase = .waiting
  | .registerCyclicTask name => s.cyclicTasks.find? name = none

instance (s : Application) (action : Action) : Decidable (s.Cancels action) := by
  unfold Cancels
  split <;> infer_instance

end Application

namespace CyclicTask

theorem saveError_eq (task : CyclicTask) (text : String) : ∃ errors errorsCount,
    task.saveError text = {task with errors := errors, errorsCount := errorsCount} := by
  unfold saveError
  split
  · split
    · exact ⟨_,task.errorsCount,rfl⟩
    · exact ⟨_,_,rfl⟩
  · exact ⟨_,_,rfl⟩

theorem step_kept {task next : CyclicTask} {event : TaskEvent} (stepped : task.step event = some next) :
    next.name = task.name ∧ next.stopped = task.stopped ∧ next.phase.live = task.phase.live ∧
      (task.phase.live = false → next.totalRuns = task.totalRuns ∧ next.arms = task.arms) := by
  unfold step at stepped
  split at stepped
  next shape => cases stepped; simp [shape]
  next shape => cases stepped; simp [shape]
  next shape => cases stepped; simp [shape]
  next shape => cases stepped; simp [shape]
  next what shape =>
    obtain ⟨errors,errorsCount,saved⟩ := saveError_eq task what
    rw [saved] at stepped
    cases stepped
    simp [shape]
  next shape => cases stepped; simp [shape]
  next shape => cases stepped; simp [shape]
  next => contradiction

theorem live_stop (task : CyclicTask) :
    task.stop.phase.live = (task.phase.live && decide (task.phase ≠ .waiting)) := by
  cases shape : task.phase <;> simp [stop,shape]

/-- A live task moves on, and starts its routine or comes nearer to it. -/
theorem live_next {task : CyclicTask} (live : task.phase.live = true) : ∃ event next,
    task.step event = some next ∧ next.phase.live = true ∧ task.totalRuns ≤ next.totalRuns ∧
      (next.totalRuns = task.totalRuns → next.phase.distance < task.phase.distance) := by
  cases shape : task.phase with
  | waiting => exact ⟨.expire,{task with phase := .queued false},by simp [step,shape],rfl,le_rfl,by simp⟩
  | queued aborted =>
    obtain rfl : aborted = false := by simpa [shape] using live
    exact ⟨.handler,{task with phase := .routine, totalRuns := task.totalRuns + 1},by simp [step,shape],rfl,
      Nat.le_succ _,by simp⟩
  | routine => exact ⟨.returned,{task with phase := .arm},by simp [step,shape],rfl,le_rfl,by simp⟩
  | arm => exact ⟨.arm,{task with phase := .asyncWait},by simp [step,shape],rfl,le_rfl,by simp⟩
  | asyncWait =>
    exact ⟨.asyncWait,{task with phase := .waiting, arms := task.arms + 1},by simp [step,shape],rfl,le_rfl,by simp⟩
  | reset => simp [shape] at live

end CyclicTask

namespace Application

/-- What one step makes of a task. -/
inductive Moved (task : CyclicTask) : CyclicTask → Prop
  | same : Moved task task
  | event (event : TaskEvent) (next : CyclicTask) (stepped : task.step event = some next) : Moved task next
  | stop : Moved task task.stop

theorem deleteCyclicTask_moved (s : Application) (name : String) (place : Nat) {task : CyclicTask}
    (found : s.tasks[place]? = some task) :
    ∃ after, (s.deleteCyclicTask name).tasks[place]? = some after ∧ Moved task after := by
  unfold deleteCyclicTask
  split
  next stopped _ =>
    simp only [List.getElem?_modify,found]
    by_cases here : stopped = place
    · exact ⟨task.stop,by simp [here],.stop⟩
    · exact ⟨task,by simp [here],.same⟩
  next => exact ⟨task,found,.same⟩

theorem step_moved {s next : Application} {action : Action} (stepped : s.step action = some next)
    {place : Nat} {task : CyclicTask} (found : s.tasks[place]? = some task) :
    ∃ after, next.tasks[place]? = some after ∧ Moved task after := by
  cases action with
  | task at' event =>
    simp only [step,Option.bind_eq_bind,Option.bind_eq_some_iff,Option.pure_def,Option.some.injEq] at stepped
    obtain ⟨moving,here,moved,taken,rfl⟩ := stepped
    by_cases same : at' = place
    · rw [same,found,Option.some.injEq] at here
      rw [← here] at taken
      have inside : place < s.tasks.length := (List.getElem?_eq_some_iff.mp found).1
      exact ⟨moved,by simp [same,inside],.event event moved taken⟩
    · exact ⟨task,by simpa [same] using found,.same⟩
  | deleteCyclicTask name =>
    cases stepped
    exact s.deleteCyclicTask_moved name place found
  | reregister name =>
    cases stepped
    exact s.deleteCyclicTask_moved name place found
  | registerCyclicTask name =>
    simp only [step,Option.ite_none_right_eq_some,Option.some.injEq] at stepped
    obtain ⟨_,rfl⟩ := stepped
    have inside : place < s.tasks.length := (List.getElem?_eq_some_iff.mp found).1
    exact ⟨task,by simpa [registerCyclicTask,List.getElem?_append_left inside] using found,.same⟩

/-- A task that is not live will not be. -/
theorem run_dormant {s later : Application} (run : Run step Always s later) {place : Nat} {task : CyclicTask}
    (found : s.tasks[place]? = some task) (dormant : task.phase.live = false) :
    ∃ after, later.tasks[place]? = some after ∧ after.phase.live = false ∧
      after.totalRuns = task.totalRuns ∧ after.arms = task.arms := by
  refine @Run.invariant _ _ _ _ _ later (fun state => ∃ after, state.tasks[place]? = some after ∧
    after.phase.live = false ∧ after.totalRuns = task.totalRuns ∧ after.arms = task.arms) run
    ⟨task,found,dormant,rfl,rfl⟩ ?_
  intro state next action _ before _ stepped
  obtain ⟨old,here,still,runs,arms⟩ := before
  obtain ⟨after,there,moved⟩ := step_moved stepped here
  refine ⟨after,there,?_⟩
  cases moved with
  | same => exact ⟨still,runs,arms⟩
  | event event _ taken =>
    obtain ⟨_,_,live,counts⟩ := CyclicTask.step_kept taken
    exact ⟨live.trans still,(counts still).1.trans runs,(counts still).2.trans arms⟩
  | stop => exact ⟨by rw [CyclicTask.live_stop,still,Bool.false_and],runs,arms⟩

theorem staysStopped_of_dormant {s : Application} {place : Nat} {task : CyclicTask}
    (found : s.tasks[place]? = some task) (dormant : task.phase.live = false) : s.StaysStopped place := by
  intro later run old here after there
  obtain ⟨same,kept,_,runs,arms⟩ := run_dormant run found dormant
  rw [found] at here
  rw [kept] at there
  cases here
  cases there
  exact ⟨runs,arms ▸ Nat.le_add_right _ _⟩

theorem live_of_keepsRunning {s : Application} {place : Nat} {task : CyclicTask}
    (found : s.tasks[place]? = some task) (running : s.KeepsRunning place) : task.phase.live = true := by
  obtain ⟨later,run,old,here,after,there,more⟩ := running
  by_contra idle
  have same := (staysStopped_of_dormant found (Bool.eq_false_iff.mpr idle) later run old here after there).1
  exact absurd same (Nat.ne_of_gt more)

theorem keepsRunning_of_live {s : Application} {place : Nat} {task : CyclicTask}
    (found : s.tasks[place]? = some task) (live : task.phase.live = true) : s.KeepsRunning place := by
  induction near : task.phase.distance using Nat.strong_induction_on generalizing s task with
  | _ distance ih =>
    obtain ⟨event,next,taken,still,least,nearer⟩ := CyclicTask.live_next live
    have inside : place < s.tasks.length := (List.getElem?_eq_some_iff.mp found).1
    have stepped : s.step (.task place event) = some {s with tasks := s.tasks.set place next} := by
      simp [step,found,taken]
    have first : Run step Always s {s with tasks := s.tasks.set place next} := .step s _ _ .start trivial stepped
    have here : (s.tasks.set place next)[place]? = some next := by simp [inside]
    rcases Nat.lt_or_eq_of_le least with more | same
    · exact ⟨_,first,task,found,next,here,more⟩
    · obtain ⟨later,run,old,started,after,there,grown⟩ :=
        @ih _ (near ▸ nearer same.symm) {s with tasks := s.tasks.set place next} next here still rfl
      rw [here] at started
      cases started
      exact ⟨later,first.trans run,task,found,after,there,same ▸ grown⟩

/-- The registry holds exactly the live tasks, which are those not stopped. -/
structure Registered (s : Application) : Prop where
  mapped : ∀ name place, s.cyclicTasks.find? name = some place →
    ∃ task, s.tasks[place]? = some task ∧ task.name = name ∧ task.stopped = false
  known : ∀ (place : Nat) (task : CyclicTask), s.tasks[place]? = some task → task.stopped = false →
    s.cyclicTasks.find? task.name = some place
  live : ∀ (place : Nat) (task : CyclicTask), s.tasks[place]? = some task → task.phase.live = !task.stopped

theorem Registered.stopsHold {s : Application} (registered : s.Registered) : s.StopsHold where
  stopped place task found stopped :=
    staysStopped_of_dormant found (by rw [registered.live place task found,stopped]; rfl)
  one place other task found same there name running runs := by
    have here := registered.live place task found
    have elsewhere := registered.live other same there
    rw [live_of_keepsRunning found running] at here
    rw [live_of_keepsRunning there runs] at elsewhere
    have one := registered.known place task found (by simpa using here.symm)
    have two := registered.known other same there (by simpa using elsewhere.symm)
    rw [name,two] at one
    exact (Option.some.inj one).symm

theorem deleteCyclicTask_registered {s : Application} (registered : s.Registered) {name : String}
    (waits : ∀ place ∈ s.cyclicTasks.find? name, ∀ task ∈ s.tasks[place]?, task.phase = .waiting) :
    (s.deleteCyclicTask name).Registered := by
  unfold deleteCyclicTask
  split
  next stopped found =>
    obtain ⟨gone,here,called,running⟩ := registered.mapped name stopped found
    have waiting := waits stopped found gone here
    have read (place : Nat) : (s.tasks.modify stopped CyclicTask.stop)[place]? =
        if place = stopped then some gone.stop else s.tasks[place]? := by
      rw [List.getElem?_modify]
      by_cases at' : place = stopped
      · simp [at',here]
      · simp [at',Ne.symm at']
    refine ⟨?_,?_,?_⟩
    · intro other place there
      rw [SortedMap.find?_erase] at there
      split at there
      next => contradiction
      next differs =>
        obtain ⟨task,at',names,unstopped⟩ := registered.mapped other place there
        refine ⟨task,?_,names,unstopped⟩
        have apart : place ≠ stopped := by
          intro same
          rw [same,here] at at'
          cases at'
          exact differs (names.symm.trans called)
        rw [read,if_neg apart]
        exact at'
    · intro place task at' unstopped
      rw [read] at at'
      split at at'
      next => cases at'; contradiction
      next apart =>
        have known := registered.known place task at' unstopped
        rw [SortedMap.find?_erase,if_neg]
        · exact known
        · intro same
          rw [same,found] at known
          exact apart (Option.some.inj known).symm
    · intro place task at'
      rw [read] at at'
      split at at'
      next =>
        cases at'
        rw [CyclicTask.live_stop,waiting]
        rfl
      next => exact registered.live place task at'
  next => exact registered

theorem event_registered {s : Application} (registered : s.Registered) {place : Nat} {task next : CyclicTask}
    {event : TaskEvent} (found : s.tasks[place]? = some task) (taken : task.step event = some next) :
    Registered {s with tasks := s.tasks.set place next} := by
  obtain ⟨name,stopped,live,_⟩ := CyclicTask.step_kept taken
  have inside : place < s.tasks.length := (List.getElem?_eq_some_iff.mp found).1
  have read (other : Nat) : (s.tasks.set place next)[other]? =
      if other = place then some next else s.tasks[other]? := by
    rw [List.getElem?_set]
    by_cases same : other = place
    · simp [same,inside]
    · simp [same,Ne.symm same]
  refine ⟨?_,?_,?_⟩
  · intro called other there
    obtain ⟨old,at',names,unstopped⟩ := registered.mapped called other there
    rw [read]
    split
    next same =>
      rw [same,found] at at'
      cases at'
      exact ⟨next,rfl,name.trans names,stopped.trans unstopped⟩
    next => exact ⟨old,at',names,unstopped⟩
  · intro other old at' unstopped
    rw [read] at at'
    split at at'
    next same =>
      cases at'
      rw [name,same]
      exact registered.known place task found (stopped.symm.trans unstopped)
    next => exact registered.known other old at' unstopped
  · intro other old at'
    rw [read] at at'
    split at at'
    next =>
      cases at'
      rw [live,stopped]
      exact registered.live place task found
    next => exact registered.live other old at'

theorem registerCyclicTask_getElem? (s : Application) (name : String) (place : Nat) (task : CyclicTask) :
    (s.registerCyclicTask name).tasks[place]? = some task ↔
      s.tasks[place]? = some task ∨ place = s.tasks.length ∧ task = {name} := by
  simp only [registerCyclicTask,List.getElem?_append]
  by_cases inside : place < s.tasks.length
  · simp [inside,Nat.ne_of_lt inside]
  · rcases Nat.lt_or_eq_of_le (Nat.le_of_not_lt inside) with beyond | last
    · have far : place - s.tasks.length ≠ 0 := by omega
      simp [inside,far,Nat.ne_of_gt beyond]
    · simp [← last,eq_comm]

theorem registerCyclicTask_registered {s : Application} (registered : s.Registered) {name : String}
    (absent : s.cyclicTasks.find? name = none) : (s.registerCyclicTask name).Registered := by
  have keep (place : Nat) (task : CyclicTask) := registerCyclicTask_getElem? s name place task
  refine ⟨?_,?_,?_⟩
  · intro called place there
    simp only [registerCyclicTask,SortedMap.find?_insert] at there
    split at there
    next same =>
      cases there
      exact ⟨{name},(keep _ _).mpr (.inr ⟨rfl,rfl⟩),same.symm,rfl⟩
    next =>
      obtain ⟨task,at',names,unstopped⟩ := registered.mapped called place there
      exact ⟨task,(keep _ _).mpr (.inl at'),names,unstopped⟩
  · intro place task at' unstopped
    simp only [registerCyclicTask,SortedMap.find?_insert]
    rcases (keep place task).mp at' with before | ⟨last,fresh⟩
    · have known := registered.known place task before unstopped
      rw [if_neg]
      · exact known
      · intro same
        rw [same,absent] at known
        contradiction
    · simp [fresh,last]
  · intro place task at'
    rcases (keep place task).mp at' with before | ⟨_,fresh⟩
    · exact registered.live place task before
    · rw [fresh]
      rfl

theorem step_registered {s next : Application} {action : Action} (registered : s.Registered)
    (stepped : s.step action = some next) (cancels : s.Cancels action) : next.Registered := by
  cases action with
  | task place event =>
    simp only [step,Option.bind_eq_bind,Option.bind_eq_some_iff,Option.pure_def,Option.some.injEq] at stepped
    obtain ⟨task,found,moved,taken,rfl⟩ := stepped
    exact event_registered registered found taken
  | deleteCyclicTask name =>
    cases stepped
    exact deleteCyclicTask_registered registered cancels
  | reregister name =>
    cases stepped
    obtain ⟨mapped,known,live⟩ := deleteCyclicTask_registered registered cancels
    exact ⟨mapped,known,live⟩
  | registerCyclicTask name =>
    simp only [step,Option.ite_none_right_eq_some,Option.some.injEq] at stepped
    obtain ⟨_,rfl⟩ := stepped
    obtain ⟨mapped,known,live⟩ := registerCyclicTask_registered registered cancels
    exact ⟨mapped,known,live⟩

/-- A stop that finds the handler queued or under way leaves a task that runs on. -/
theorem deleteCyclicTask_waits {s next : Application} (registered : s.Registered) {name : String}
    (tasks : next.tasks = (s.deleteCyclicTask name).tasks) (hold : next.StopsHold) :
    ∀ place ∈ s.cyclicTasks.find? name, ∀ task ∈ s.tasks[place]?, task.phase = .waiting := by
  intro place found task here
  by_contra busy
  obtain ⟨same,at',_,unstopped⟩ := registered.mapped name place found
  rw [here] at at'
  cases at'
  have live : task.stop.phase.live = true := by
    rw [CyclicTask.live_stop,registered.live place task here,unstopped]
    simpa using busy
  have there : next.tasks[place]? = some task.stop := by
    rw [tasks]
    simp only [deleteCyclicTask,Option.mem_def.mp found,List.getElem?_modify,Option.mem_def.mp here,
      if_true]
    rfl
  obtain ⟨later,run,before,started,after,ended,more⟩ := keepsRunning_of_live there live
  have stays := hold.stopped place task.stop there rfl later run before started after ended
  exact absurd stays.1 (Nat.ne_of_gt more)

theorem step_stopsHold {s next : Application} {action : Action} (registered : s.Registered)
    (stepped : s.step action = some next) : next.StopsHold ↔ s.Cancels action := by
  refine ⟨fun hold => ?_,fun cancels => (step_registered registered stepped cancels).stopsHold⟩
  cases action with
  | task place event => trivial
  | deleteCyclicTask name =>
    cases stepped
    exact deleteCyclicTask_waits registered rfl hold
  | reregister name =>
    have tasks : next.tasks = (s.deleteCyclicTask name).tasks := by
      cases stepped
      rfl
    exact deleteCyclicTask_waits registered tasks hold
  | registerCyclicTask name =>
    simp only [step,Option.ite_none_right_eq_some,Option.some.injEq] at stepped
    obtain ⟨_,rfl⟩ := stepped
    show s.cyclicTasks.find? name = none
    by_contra present
    obtain ⟨place,found⟩ := Option.ne_none_iff_exists'.mp present
    obtain ⟨old,here,called,unstopped⟩ := registered.mapped name place found
    have live := registered.live place old here
    rw [unstopped] at live
    have kept : (s.registerCyclicTask name).tasks[place]? = some old :=
      (registerCyclicTask_getElem? s name place old).mpr (.inl here)
    have added : (s.registerCyclicTask name).tasks[s.tasks.length]? = some {name} :=
      (registerCyclicTask_getElem? s name s.tasks.length {name}).mpr (.inr ⟨rfl,rfl⟩)
    have same := hold.one place s.tasks.length old kept {name} added called
      (keepsRunning_of_live kept live) (keepsRunning_of_live added rfl)
    have inside : place < s.tasks.length := (List.getElem?_eq_some_iff.mp here).1
    omega

theorem registered_init : init.Registered :=
  ⟨fun _ _ found => by simp [init] at found,fun _ _ found => by simp [init] at found,
    fun _ _ found => by simp [init] at found⟩

/-- Every state on the way has its stopped tasks stay stopped, and one task per name at
most keep running, exactly when each stop meets the wait of the timer and each
registration finds the name free. -/
theorem stops_hold_iff (actions : List Action) (final : Application)
    (executed : execute step Always actions init = some final) :
    (∀ earlier reached, earlier <+: actions → execute step Always earlier init = some reached →
      reached.StopsHold) ↔ execute step Cancels actions init = some final :=
  execute_prefixes_iff_of (fun _ => Registered.stopsHold)
    (fun _ _ _ registered stepped => step_stopsHold registered stepped)
    (fun _ _ _ registered stepped cancels => step_registered registered stepped cancels)
    registered_init actions executed

def replaced : List Action :=
  [.registerCyclicTask "logs_flusher",.task 0 .expire,.task 0 .handler,.task 0 .returned,.task 0 .arm,
    .task 0 .asyncWait,.reregister "logs_flusher",.registerCyclicTask "logs_flusher",.task 0 .handler]

theorem stops_hold_iff_replaced : ∃ s : Application,
    s.tasks.map (fun task => (task.stopped,task.totalRuns)) = [(true,1),(false,0)] ∧
      ∀ earlier reached, earlier <+: replaced → execute step Always earlier init = some reached →
        reached.StopsHold := by
  obtain ⟨s,ran,counts⟩ := (Option.any_eq_true _ _).mp (by decide :
    (execute step Cancels replaced init).any (fun s =>
      s.tasks.map (fun task => (task.stopped,task.totalRuns)) == [(true,1),(false,0)]) = true)
  exact ⟨s,by simpa using counts,(stops_hold_iff replaced s (execute_always replaced ran)).mpr ran⟩

/-- The timer has expired and its handler is queued when the task is deleted. -/
theorem late_stop_lost : ¬∀ s : Application, Run step Always init s → s.StopsHold := by
  intro sound
  obtain ⟨s,run,good⟩ := exists_run step Always init
    (fun s => s.tasks[0]?.any fun task => task.stopped && task.phase.live)
    [.registerCyclicTask "logs_flusher",.task 0 .expire,.deleteCyclicTask "logs_flusher"] (by decide)
  obtain ⟨task,found,stopped⟩ := (Option.any_eq_true _ _).mp good
  simp only [Bool.and_eq_true] at stopped
  obtain ⟨later,ran,before,here,after,there,more⟩ := keepsRunning_of_live found stopped.2
  have stays := (sound s run).stopped 0 task found stopped.1 later ran before here after there
  exact absurd stays.1 (Nat.ne_of_gt more)

end Application
end Call45Aggr
