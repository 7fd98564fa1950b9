import Call45Aggr.Library.Run
import Mathlib.Algebra.Ring.Rat
import Mathlib.Algebra.BigOperators.Group.List.Basic
import Mathlib.Data.List.Indexes

/-! `impl::Timer`: the levels of the template, the outermost first, over the state they share. What the
clock of a level reads is an input of each call, by the place of the level; `none` is a clock that fails. -/
namespace Call45Aggr
open Library

structure Timespec where
  sec : Int := 0
  nsec : Int := 0
  deriving DecidableEq

/-- A `double` is a rational number. -/
def secondsBetween (start finish : Timespec) : Rat :=
  (finish.sec - start.sec : Int) + (finish.nsec - start.nsec : Int) / 1000000000

namespace Timer

inductive State
  | started
  | stopped
  deriving DecidableEq

/-- `Timer<>`; a thread is its number. -/
structure Base where
  state : State := .stopped
  startedFrom : Option Nat := none
  nDoneMeasurements : Nat := 0
  deriving DecidableEq

structure Level where
  lastMeasuredInterval : Rat := 0
  totalMeasuredIntervals : Rat := 0
  startPoint : Timespec := {}
  deriving DecidableEq

abbrev Clock := Nat → Option Timespec

def Clock.inner (currentTime : Clock) : Clock := fun i => currentTime (i + 1)

namespace Base

/-- Whether the call returns, and what it leaves. -/
def start (s : Base) (thread : Nat) : Bool × Base :=
  if s.state ≠ .stopped then (false,s)
  else (true,{s with state := .started, startedFrom := some thread})

def stop (s : Base) (thread : Nat) : Bool × Base :=
  if s.state ≠ .started then (false,s)
  else if s.startedFrom ≠ some thread then (false,s)
  else (true,{
    state := .stopped
    startedFrom := none
    nDoneMeasurements := (s.nDoneMeasurements + 1) % 18446744073709551616})

def isStarted (s : Base) : Bool := s.state = .started

end Base

end Timer

structure Timer where
  levels : List Timer.Level
  base : Timer.Base := {}
  deriving DecidableEq

namespace Timer

def push (level : Level) (s : Timer) : Timer := {s with levels := level :: s.levels}

def startLevels (base : Base) (thread : Nat) : Clock → List Level → Bool × Timer
  | _, [] => ((base.start thread).1,⟨[],(base.start thread).2⟩)
  | currentTime, level :: next =>
    let (returned,s) := startLevels base thread currentTime.inner next
    if returned then
      match currentTime 0 with
      | some now => (true,s.push {level with startPoint := now})
      | none => (false,s.push level)
    else (false,s.push level)

def currentMeasuringInterval (base : Base) (level : Level) (now : Option Timespec) : Option Rat :=
  if base.isStarted then now.map (secondsBetween level.startPoint) else none

def Level.measured (level : Level) (interval : Rat) : Level where
  lastMeasuredInterval := interval
  totalMeasuredIntervals := level.totalMeasuredIntervals + interval
  startPoint := {}

def stopLevels (base : Base) (thread : Nat) : Clock → List Level → Bool × Timer
  | _, [] => ((base.stop thread).1,⟨[],(base.stop thread).2⟩)
  | currentTime, level :: next =>
    match currentMeasuringInterval base level (currentTime 0) with
    | none => (false,⟨level :: next,base⟩)
    | some interval =>
      let (returned,s) := stopLevels base thread currentTime.inner next
      (returned,s.push (level.measured interval))

def start (s : Timer) (thread : Nat) (currentTime : Clock) : Bool × Timer :=
  startLevels s.base thread currentTime s.levels

def stop (s : Timer) (thread : Nat) (currentTime : Clock) : Bool × Timer :=
  stopLevels s.base thread currentTime s.levels

def Clock.Reads (currentTime : Clock) (levels : List Level) : Prop :=
  ∀ i < levels.length, (currentTime i).isSome = true

instance (currentTime : Clock) (levels : List Level) : Decidable (currentTime.Reads levels) :=
  inferInstanceAs (Decidable (∀ i < levels.length, _))

def Clock.at (currentTime : Clock) (i : Nat) : Timespec := (currentTime i).getD {}

theorem Clock.Reads.cons {currentTime : Clock} {level : Level} {next : List Level}
    (reads : currentTime.Reads (level :: next)) :
    currentTime 0 = some (currentTime.at 0) ∧ currentTime.inner.Reads next := by
  refine ⟨?_,fun i inside => reads (i + 1) (Nat.succ_lt_succ inside)⟩
  obtain ⟨now,read⟩ := Option.isSome_iff_exists.mp (reads 0 (Nat.succ_pos next.length))
  simp [Clock.at,read]

theorem start_started {s : Timer} (started : s.base.state = .started) (thread : Nat) (currentTime : Clock) :
    s.start thread currentTime = (false,s) := by
  obtain ⟨levels,base⟩ := s
  unfold start
  dsimp only at started ⊢
  induction levels generalizing currentTime with
  | nil => simp [startLevels,Base.start,started]
  | cons level next ih =>
    rw [startLevels,ih]
    rfl

theorem start_stopped {s : Timer} (stopped : s.base.state = .stopped) (thread : Nat) {currentTime : Clock}
    (reads : currentTime.Reads s.levels) : s.start thread currentTime =
      (true,⟨s.levels.mapIdx fun i level => {level with startPoint := currentTime.at i},
        {s.base with state := .started, startedFrom := some thread}⟩) := by
  obtain ⟨levels,base⟩ := s
  unfold start
  dsimp only at stopped reads ⊢
  induction levels generalizing currentTime with
  | nil => simp [startLevels,Base.start,stopped]
  | cons level next ih =>
    obtain ⟨read,inner⟩ := reads.cons
    rw [startLevels,ih inner,List.mapIdx_cons,read]
    rfl

theorem stop_stopped {s : Timer} (stopped : s.base.state = .stopped) (thread : Nat) (currentTime : Clock) :
    s.stop thread currentTime = (false,s) := by
  obtain ⟨levels,base⟩ := s
  have idle : base.state = .stopped := stopped
  cases levels with
  | nil => simp [stop,stopLevels,Base.stop,idle]
  | cons level next => simp [stop,stopLevels,currentMeasuringInterval,Base.isStarted,idle]

theorem stop_started {s : Timer} (started : s.base.state = .started) {thread : Nat}
    (owner : s.base.startedFrom = some thread) {currentTime : Clock} (reads : currentTime.Reads s.levels) :
    s.stop thread currentTime =
      (true,⟨s.levels.mapIdx fun i level => level.measured (secondsBetween level.startPoint (currentTime.at i)),
        ⟨.stopped,none,(s.base.nDoneMeasurements + 1) % 18446744073709551616⟩⟩) := by
  obtain ⟨levels,base⟩ := s
  unfold stop
  dsimp only at started owner reads ⊢
  induction levels generalizing currentTime with
  | nil => simp [stopLevels,Base.stop,started,owner]
  | cons level next ih =>
    obtain ⟨read,inner⟩ := reads.cons
    have interval : currentMeasuringInterval base level (currentTime 0) =
        some (secondsBetween level.startPoint (currentTime.at 0)) := by
      simp [currentMeasuringInterval,Base.isStarted,started,read]
    rw [stopLevels,interval,List.mapIdx_cons]
    dsimp only
    rw [ih inner]
    rfl

/-- A timer without levels checks the thread before it changes anything. -/
theorem stop_other {s : Timer} (bare : s.levels = []) {thread : Nat} (other : s.base.startedFrom ≠ some thread)
    (currentTime : Clock) : s.stop thread currentTime = (false,s) := by
  obtain ⟨levels,base⟩ := s
  obtain rfl : levels = [] := bare
  simp only [stop,stopLevels,Base.stop]
  rw [if_pos other,ite_self]

/-- Where the outermost clock cannot be read, nothing is changed yet. -/
theorem stop_unread {s : Timer} (filled : s.levels ≠ []) {currentTime : Clock} (unread : currentTime 0 = none)
    (thread : Nat) : s.stop thread currentTime = (false,s) := by
  obtain ⟨levels,base⟩ := s
  cases levels with
  | nil => exact absurd rfl filled
  | cons level next => simp [stop,stopLevels,currentMeasuringInterval,unread]

inductive Call
  | start (thread : Nat) (currentTime : Clock)
  | stop (thread : Nat) (currentTime : Clock)

def call (s : Timer) : Call → Bool × Timer
  | .start thread currentTime => s.start thread currentTime
  | .stop thread currentTime => s.stop thread currentTime

/-- A timer with its history: what the clocks read at the last start that returned, and the intervals of each cycle of a
start and a stop that returned, by level. -/
structure Measured where
  timer : Timer
  since : Nat → Timespec := fun _ => {}
  cycles : List (Nat → Rat) := []

namespace Measured

def init (depth : Nat) : Measured := {timer := ⟨List.replicate depth {},{}⟩}

def step (s : Measured) (call : Call) : Option Measured :=
  let (returned,timer) := s.timer.call call
  match returned,call with
  | false,_ => some {s with timer}
  | true,.start _ currentTime => some {s with timer, since := currentTime.at}
  | true,.stop _ currentTime =>
    some {s with timer, cycles := s.cycles ++ [fun i => secondsBetween (s.since i) (currentTime.at i)]}

/-- The call returns, or it leaves all levels as they were. -/
def Kept (s : Measured) (call : Call) : Prop := (s.timer.call call).1 = true ∨ (s.timer.call call).2 = s.timer

structure Sums (s : Measured) : Prop where
  done : s.timer.base.nDoneMeasurements = s.cycles.length
  total : ∀ i level, s.timer.levels[i]? = some level →
    level.totalMeasuredIntervals = (s.cycles.map fun interval => interval i).sum

/-- The thread that stops is the one that started, the clocks can be read, and the counter does not overflow; a
timer whose outermost clock fails, or one without levels that another thread stops, is not stopped at all. -/
def Meets (s : Measured) : Call → Prop
  | .start _ currentTime => s.timer.base.state = .stopped → currentTime.Reads s.timer.levels
  | .stop thread currentTime => s.timer.base.state = .started →
    s.timer.levels ≠ [] ∧ currentTime 0 = none ∨ s.timer.levels = [] ∧ s.timer.base.startedFrom ≠ some thread ∨
      s.timer.base.startedFrom = some thread ∧ currentTime.Reads s.timer.levels ∧
        s.timer.base.nDoneMeasurements + 1 < 18446744073709551616

instance (s : Measured) : (call : Call) → Decidable (s.Meets call)
  | .start _ _ => inferInstanceAs (Decidable (_ → _))
  | .stop _ _ => inferInstanceAs (Decidable (_ → _))

/-- The levels of a running timer hold what their clocks read at the last start. -/
structure Sound (s : Measured) : Prop extends Sums s where
  running : s.timer.base.state = .started → ∀ i level, s.timer.levels[i]? = some level → level.startPoint = s.since i

theorem init_sound (depth : Nat) : (init depth).Sound := by
  refine ⟨⟨rfl,fun i level found => ?_⟩,fun running => by cases running⟩
  obtain ⟨-,rfl⟩ := List.mem_replicate.mp (List.mem_of_getElem? found)
  rfl

theorem step_threw {s : Measured} {call : Call} (threw : s.timer.call call = (false,s.timer)) :
    s.step call = some s ∧ s.Kept call := by
  refine ⟨?_,.inr (by rw [threw])⟩
  simp [step,threw]

theorem step_started {s : Measured} {thread : Nat} {currentTime : Clock} {timer : Timer}
    (called : s.timer.call (.start thread currentTime) = (true,timer)) :
    s.step (.start thread currentTime) = some {s with timer, since := currentTime.at} := by
  simp only [step,called]

theorem step_stopped {s : Measured} {thread : Nat} {currentTime : Clock} {timer : Timer}
    (called : s.timer.call (.stop thread currentTime) = (true,timer)) :
    s.step (.stop thread currentTime) =
      some {s with timer, cycles := s.cycles ++ [fun i => secondsBetween (s.since i) (currentTime.at i)]} := by
  simp only [step,called]

theorem step_start {s : Measured} (sound : s.Sound) {thread : Nat} {currentTime : Clock}
    (stopped : s.timer.base.state = .stopped) (reads : currentTime.Reads s.timer.levels) :
    ∃ next, s.step (.start thread currentTime) = some next ∧ next.Sound ∧ s.Kept (.start thread currentTime) := by
  have called : s.timer.call (.start thread currentTime) = (true,_) := start_stopped stopped thread reads
  refine ⟨_,step_started called,⟨⟨sound.done,?_⟩,?_⟩,.inl (by rw [called])⟩
  · intro i level found
    obtain ⟨before,there,rfl⟩ := Option.map_eq_some_iff.mp (List.getElem?_mapIdx.symm.trans found)
    exact sound.total i before there
  · intro _ i level found
    obtain ⟨before,there,rfl⟩ := Option.map_eq_some_iff.mp (List.getElem?_mapIdx.symm.trans found)
    rfl

theorem step_stop {s : Measured} (sound : s.Sound) {thread : Nat} {currentTime : Clock}
    (started : s.timer.base.state = .started) (owner : s.timer.base.startedFrom = some thread)
    (reads : currentTime.Reads s.timer.levels) (small : s.timer.base.nDoneMeasurements + 1 < 18446744073709551616) :
    ∃ next, s.step (.stop thread currentTime) = some next ∧ next.Sound ∧ s.Kept (.stop thread currentTime) := by
  have called : s.timer.call (.stop thread currentTime) = (true,_) := stop_started started owner reads
  refine ⟨_,step_stopped called,⟨⟨?_,?_⟩,?_⟩,.inl (by rw [called])⟩
  · simp only [List.length_append,List.length_singleton,← sound.done]
    exact Nat.mod_eq_of_lt small
  · intro i level found
    obtain ⟨before,there,rfl⟩ := Option.map_eq_some_iff.mp (List.getElem?_mapIdx.symm.trans found)
    simp [Level.measured,sound.total i before there,sound.running started i before there]
  · intro running
    cases running

theorem step_sound {s : Measured} (sound : s.Sound) {call : Call} (meets : s.Meets call) :
    ∃ next, s.step call = some next ∧ next.Sound ∧ s.Kept call := by
  have threw (same : s.timer.call call = (false,s.timer)) :
      ∃ next, s.step call = some next ∧ next.Sound ∧ s.Kept call :=
    ⟨s,(step_threw same).1,sound,(step_threw same).2⟩
  cases call with
  | start thread currentTime =>
    cases state : s.timer.base.state with
    | started => exact threw (start_started state thread currentTime)
    | stopped => exact step_start sound state (meets state)
  | stop thread currentTime =>
    cases state : s.timer.base.state with
    | stopped => exact threw (stop_stopped state thread currentTime)
    | started =>
      rcases meets state with ⟨filled,unread⟩ | ⟨bare,other⟩ | ⟨owner,reads,small⟩
      · exact threw (stop_unread filled unread thread)
      · exact threw (stop_other bare other currentTime)
      · exact step_stop sound state owner reads small

theorem run_sound {depth : Nat} {s : Measured} (run : Run step Meets (init depth) s) : s.Sound :=
  run.invariant (init_sound depth) fun _ _ _ _ sound meets stepped => by
    obtain ⟨next,moved,kept,-⟩ := step_sound sound meets
    cases stepped.symm.trans moved
    exact kept

/-- In a run whose calls meet the condition, the totals are those of the completed cycles, and a call that throws
leaves everything as it was. -/
theorem timer_sums (depth : Nat) (s : Measured) (run : Run step Meets (init depth) s) :
    s.Sums ∧ ∀ call, s.Meets call → s.Kept call := by
  have sound := run_sound run
  refine ⟨sound.toSums,fun call meets => ?_⟩
  obtain ⟨_,_,_,kept⟩ := step_sound sound meets
  exact kept

theorem timer_sums_cycle : ∃ s : Measured,
    (s.cycles.length = 1 ∧ s.timer.levels.map (·.totalMeasuredIntervals) = [3,3]) ∧ s.Sums := by
  obtain ⟨s,run,good⟩ := exists_run step Meets (init 2)
    (fun s => s.cycles.length == 1 && s.timer.levels.map (·.totalMeasuredIntervals) == [3,3])
    [.start 1 fun _ => some ⟨5,0⟩,.stop 1 fun _ => some ⟨8,0⟩] (by decide +kernel)
  simp only [Bool.and_eq_true,beq_iff_eq] at good
  exact ⟨s,good,(timer_sums 2 s run).1⟩

/-- A stop from another thread throws when the totals have grown and the start points are lost. -/
theorem stop_charged : ¬∀ (depth : Nat) (s : Measured), Run step Always (init depth) s →
    s.Sums ∧ ∀ call, s.Kept call := by
  intro keeps
  obtain ⟨s,run,good⟩ := exists_run step Always (init 2)
    (fun s => s.timer == ⟨[⟨0,0,⟨5,0⟩⟩,⟨0,0,⟨5,0⟩⟩],⟨.started,some 1,0⟩⟩)
    [.start 1 fun _ => some ⟨5,0⟩] (by decide)
  have kept := (keeps 2 s run).2 (.stop 2 fun _ => some ⟨8,0⟩)
  rw [Kept,eq_of_beq good] at kept
  exact absurd kept (by decide +kernel)

end Measured
end Timer
end Call45Aggr
