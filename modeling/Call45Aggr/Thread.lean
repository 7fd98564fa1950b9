import Call45Aggr.Library.Run

/-! The life cycle of `Thread`: its owner and its `threadFun` read and write `status_` one
access a step. -/
namespace Call45Aggr
open Library

inductive Thread.Status
  | created
  | waiting
  | running
  | stopping
  | stopped
  deriving DecidableEq

def Thread.Status.value : Thread.Status → Nat
  | .created => 0
  | .waiting => 1
  | .running => 2
  | .stopping => 3
  | .stopped => 4

/-- Where `threadFun` stands; the loop of `run` is `condition` and `body`. -/
inductive ThreadFun
  | absent
  | starting
  | onStart
  | entering
  | condition
  | body
  | leaving
  | onStop
  | exited
  deriving DecidableEq

namespace ThreadFun

@[simp] def beforeRun : ThreadFun → Bool
  | .starting | .onStart | .entering => true
  | _ => false

@[simp] def inRun : ThreadFun → Bool
  | .entering | .condition | .body => true
  | _ => false

end ThreadFun

/-- Where the owner stands; `destroying` tells the `stop` of the destructor. -/
inductive Owner
  | fresh
  | idle
  | write (destroying : Bool)
  | join (destroying : Bool)
  | joining (destroying : Bool)
  | onShutdown
  | destroyed
  deriving DecidableEq

@[simp] def Owner.writes : Owner → Bool
  | .write _ => true
  | _ => false

/-- `returned` tells that a `stop` has returned, `early` that one was issued before `run`
began. -/
structure Thread where
  status : Thread.Status
  joinable : Bool := false
  threadFun : ThreadFun := .absent
  owner : Owner := .fresh
  early : Bool := false
  returned : Bool := false
  terminated : Bool := false
  deriving DecidableEq

namespace Thread

inductive Action
  | start
  | stop
  | destroy
  | writeStopping
  | join
  | joined
  | release
  | thread (appRunning : Bool)
  deriving DecidableEq

def giveBack (s : Thread) (destroying : Bool) : Thread :=
  {s with owner := if destroying then .onShutdown else .idle, returned := true}

def stop (s : Thread) (destroying : Bool) : Thread :=
  let s := {s with early := s.early || s.threadFun.beforeRun}
  if s.status = .running then {s with owner := .write destroying} else s.giveBack destroying

def join (s : Thread) (destroying : Bool) : Thread :=
  if s.status.value = Status.running.value ||| Status.stopping.value then
    {s with owner := .joining destroying}
  else s.giveBack destroying

def run (s : Thread) (appRunning : Bool) : Option Thread :=
  match s.threadFun with
  | .starting => some {s with status := .waiting, threadFun := .onStart}
  | .onStart => some {s with status := .running, threadFun := .entering}
  | .entering => some {s with threadFun := .condition}
  | .condition =>
    some {s with threadFun := if appRunning && decide (s.status = .running) then .body else .leaving}
  | .body => some {s with threadFun := .condition}
  | .leaving => some {s with status := .stopping, threadFun := .onStop}
  | .onStop => some {s with status := .stopped, threadFun := .exited}
  | .absent | .exited => none

def step (s : Thread) (action : Action) : Option Thread :=
  if s.terminated then none
  else match s.owner,action with
    | .fresh,.start => some {s with joinable := true, threadFun := .starting, owner := .idle}
    | .idle,.stop => some (s.stop false)
    | .idle,.destroy => some (s.stop true)
    | .write destroying,.writeStopping => some {s with status := .stopping, owner := .join destroying}
    | .join destroying,.join => some (s.join destroying)
    | .joining destroying,.joined =>
      if s.threadFun = .exited then some ({s with joinable := false}.giveBack destroying) else none
    -- the member thread_ is destroyed after the body of the destructor
    | .onShutdown,.release => some {s with owner := .destroyed, terminated := s.joinable}
    | _,.thread appRunning => s.run appRunning
    | _,_ => none

/-- The default constructor leaves `status_` undefined, so it is whatever `status` is. -/
def init (status : Status) : Thread := {status}

structure StopsThread (s : Thread) : Prop where
  joined : s.returned = true → s.joinable = false
  alive : s.terminated = false
  loopEnds : s.early = true → s.owner.writes = false → s.threadFun.inRun = true → s.status ≠ .running

/-- A stop finds the thread running and still stopping when it joins, or joined already;
`threadFun` does not write over a stop that came first. -/
def Meets (s : Thread) : Action → Prop
  | .stop | .destroy => s.joinable = true → s.status = .running
  | .join => s.joinable = true → s.status = .stopping
  | .thread _ => s.threadFun = .onStart → s.early = true → s.owner.writes = true
  | _ => True

instance (s : Thread) (action : Action) : Decidable (s.Meets action) := by
  unfold Meets
  split <;> infer_instance

structure Placed (s : Thread) : Prop where
  fresh : s.owner = .fresh → s.early = false ∧ s.returned = false
  given : s.owner = .onShutdown → s.returned = true

structure Lives (s : Thread) : Prop extends StopsThread s, Placed s

theorem join_eq (s : Thread) (destroying : Bool) : s.join destroying =
    if s.status = .stopping then {s with owner := .joining destroying} else s.giveBack destroying := by
  unfold join
  cases s.status <;> rfl

theorem giveBack_placed (s : Thread) (destroying : Bool) : (s.giveBack destroying).Placed :=
  ⟨by cases destroying <;> simp [giveBack],fun _ => rfl⟩

theorem giveBack_lives {s : Thread} (alive : s.terminated = false) (destroying : Bool)
    (quiet : s.early = true → s.threadFun.inRun = true → s.status ≠ .running) :
    (s.giveBack destroying).Lives ↔ s.joinable = false := by
  refine ⟨fun lives => lives.joined rfl,fun joined => ?_⟩
  refine ⟨⟨fun _ => joined,alive,fun early _ inside => quiet early inside⟩,giveBack_placed s destroying⟩

theorem stop_lives {s : Thread} (lives : s.Lives) (destroying : Bool) :
    (s.stop destroying).Lives ↔ (s.joinable = true → s.status = .running) := by
  unfold stop
  dsimp only
  split
  next running =>
    exact iff_of_true ⟨⟨lives.joined,lives.alive,by simp⟩,⟨by simp,by simp⟩⟩ fun _ => running
  next still =>
    refine (@giveBack_lives {s with early := s.early || s.threadFun.beforeRun} lives.alive destroying
      fun _ _ => still).trans ?_
    simp [still]

theorem join_lives {s : Thread} {destroying : Bool} (lives : s.Lives) (here : s.owner = .join destroying) :
    (s.join destroying).Lives ↔ (s.joinable = true → s.status = .stopping) := by
  have ends (early : s.early = true) := lives.loopEnds early (by simp [here])
  rw [join_eq]
  split
  next stopping =>
    refine iff_of_true ⟨⟨lives.joined,lives.alive,?_⟩,⟨by simp,by simp⟩⟩ fun _ => stopping
    exact fun early _ => ends early
  next still =>
    rw [giveBack_lives lives.alive destroying ends]
    simp [still]

theorem Lives.moves {s : Thread} (lives : s.Lives) (inside : s.threadFun.inRun = true) (threadFun : ThreadFun) :
    {s with threadFun}.Lives :=
  ⟨⟨lives.joined,lives.alive,fun early quiet _ => lives.loopEnds early quiet inside⟩,lives.fresh,lives.given⟩

theorem run_lives {s next : Thread} {appRunning : Bool} (lives : s.Lives)
    (ran : s.run appRunning = some next) :
    next.Lives ↔ (s.threadFun = .onStart → s.early = true → s.owner.writes = true) := by
  have ⟨⟨joined,alive,ends⟩,placed⟩ := lives
  unfold run at ran
  split at ran
  next place =>
    cases ran
    exact iff_of_true ⟨⟨joined,alive,by simp⟩,placed.1,placed.2⟩ (by simp [place])
  next place =>
    cases ran
    refine ⟨fun lives _ early => ?_,fun first => ⟨⟨joined,alive,fun early quiet _ => ?_⟩,placed.1,placed.2⟩⟩
    · cases writes : s.owner.writes with
      | true => rfl
      | false => exact absurd rfl (lives.loopEnds early writes rfl)
    · have quiet : s.owner.writes = false := quiet
      rw [first place early] at quiet
      contradiction
  next place =>
    cases ran
    exact iff_of_true (lives.moves (by simp [place]) _) (by simp [place])
  next place =>
    cases ran
    exact iff_of_true (lives.moves (by simp [place]) _) (by simp [place])
  next place =>
    cases ran
    exact iff_of_true (lives.moves (by simp [place]) _) (by simp [place])
  next place =>
    cases ran
    exact iff_of_true ⟨⟨joined,alive,by simp⟩,placed.1,placed.2⟩ (by simp [place])
  next place =>
    cases ran
    exact iff_of_true ⟨⟨joined,alive,by simp⟩,placed.1,placed.2⟩ (by simp [place])
  next => contradiction
  next => contradiction

theorem step_lives {s next : Thread} {action : Action} (lives : s.Lives)
    (stepped : s.step action = some next) : next.Lives ↔ s.Meets action := by
  unfold step at stepped
  rw [if_neg (Bool.eq_false_iff.mp lives.alive)] at stepped
  split at stepped
  next here =>
    cases stepped
    obtain ⟨early,returned⟩ := lives.fresh here
    refine iff_of_true ⟨⟨?_,lives.alive,?_⟩,⟨?_,?_⟩⟩ trivial
    · simp [returned]
    · simp [early]
    · simp
    · simp
  next =>
    cases stepped
    exact stop_lives lives false
  next =>
    cases stepped
    exact stop_lives lives true
  next =>
    cases stepped
    exact iff_of_true ⟨⟨lives.joined,lives.alive,by simp⟩,⟨by simp,by simp⟩⟩ trivial
  next destroying here =>
    cases stepped
    exact join_lives lives here
  next destroying here =>
    split at stepped
    next exited =>
      cases stepped
      refine iff_of_true ((@giveBack_lives {s with joinable := false} lives.alive destroying ?_).mpr rfl) trivial
      simp [exited]
    next => contradiction
  next here =>
    cases stepped
    have joined := lives.joined (lives.given here)
    refine iff_of_true ⟨⟨lives.joined,joined,?_⟩,⟨?_,?_⟩⟩ trivial
    · exact fun early _ => lives.loopEnds early (by simp [here])
    · simp
    · simp
  next => exact run_lives lives stepped
  next => contradiction

theorem run_owner {s next : Thread} {appRunning : Bool} (ran : s.run appRunning = some next) :
    next.owner = s.owner ∧ next.early = s.early ∧ next.returned = s.returned := by
  unfold run at ran
  split at ran <;> cases ran <;> exact ⟨rfl,rfl,rfl⟩

theorem stop_placed (s : Thread) (destroying : Bool) : (s.stop destroying).Placed := by
  unfold stop
  dsimp only
  split
  · exact ⟨by simp,by simp⟩
  · exact giveBack_placed _ destroying

theorem join_placed (s : Thread) (destroying : Bool) : (s.join destroying).Placed := by
  unfold join
  split
  · exact ⟨by simp,by simp⟩
  · exact giveBack_placed s destroying

theorem step_placed {s next : Thread} {action : Action} (placed : s.Placed)
    (stepped : s.step action = some next) : next.Placed := by
  unfold step at stepped
  split at stepped
  next => contradiction
  next =>
    split at stepped
    next => cases stepped; exact ⟨by simp,by simp⟩
    next => cases stepped; exact s.stop_placed false
    next => cases stepped; exact s.stop_placed true
    next => cases stepped; exact ⟨by simp,by simp⟩
    next destroying _ => cases stepped; exact s.join_placed destroying
    next destroying _ =>
      split at stepped
      next => cases stepped; exact giveBack_placed _ destroying
      next => contradiction
    next => cases stepped; exact ⟨by simp,by simp⟩
    next =>
      obtain ⟨owner,early,returned⟩ := run_owner stepped
      exact ⟨by rw [owner,early,returned]; exact placed.fresh,by rw [owner,returned]; exact placed.given⟩
    next => contradiction

theorem init_lives (status : Status) : (init status).Lives :=
  ⟨⟨by simp [init],rfl,by simp [init]⟩,⟨fun _ => ⟨rfl,rfl⟩,by simp [init]⟩⟩

/-- Every state on the way has a stop that returned leave a thread not joinable, no
process terminated, and the loop ended by a stop from before it, exactly when each stop
meets the thread running and still stopping. -/
theorem stops_thread_iff (status : Status) (actions : List Action) (final : Thread)
    (executed : execute step Always actions (init status) = some final) :
    (∀ earlier reached, earlier <+: actions → execute step Always earlier (init status) = some reached →
      reached.StopsThread) ↔ execute step Meets actions (init status) = some final :=
  execute_prefixes_iff_of (fun _ => Lives.toStopsThread)
    (fun _ _ _ lives stepped => ⟨fun stops => (step_lives lives stepped).mp ⟨stops,step_placed lives.toPlaced stepped⟩,
      fun meets => ((step_lives lives stepped).mpr meets).toStopsThread⟩)
    (fun _ _ _ lives stepped => (step_lives lives stepped).mpr) (init_lives status) actions executed

def stoppedEarly : List Action :=
  [.start,.thread true,.thread true,.stop,.writeStopping,.join,.thread true,.thread true,.thread true,
    .thread true,.joined,.stop,.destroy,.release]

theorem stops_thread_iff_stoppedEarly : ∃ s : Thread, s.early = true ∧ s.owner = .destroyed ∧
    ∀ earlier reached, earlier <+: stoppedEarly →
      execute step Always earlier (init .created) = some reached → reached.StopsThread := by
  obtain ⟨s,ran,ends⟩ := (Option.any_eq_true _ _).mp (by decide :
    (execute step Meets stoppedEarly (init .created)).any
      (fun s => s.early && decide (s.owner = .destroyed)) = true)
  simp only [Bool.and_eq_true,decide_eq_true_eq] at ends
  exact ⟨s,ends.1,ends.2,
    (stops_thread_iff .created stoppedEarly s (execute_always stoppedEarly ran)).mpr ran⟩

/-- A stop before the new thread has run a step, and the destructor after it. -/
theorem stop_before_running : ¬∀ s : Thread, Run step Always (init .created) s → s.StopsThread := by
  intro sound
  obtain ⟨s,run,terminated⟩ := exists_run step Always (init .created) (·.terminated)
    [.start,.stop,.destroy,.release] (by decide)
  have alive := (sound s run).alive
  rw [terminated] at alive
  contradiction

end Thread
end Call45Aggr
