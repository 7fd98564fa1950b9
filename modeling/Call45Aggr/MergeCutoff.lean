import Call45Aggr.MergeMatching

/-! The merge against a clock that another thread moves: whether what an iteration
emits and purges lies before what it keeps. -/
namespace Call45Aggr
open Library

/-- The merging thread and the link reader's `startTime_`. -/
structure Clocked where
  merge : MergeContainer
  clock : Int

inductive Turn
  | advance (time : Int)
  | merge (action : Action)

/-- A read of the clock returns what the link reader last stored. -/
def Action.reads (clock : Int) : Action → Bool
  | .getTime now => now == clock
  | _ => true

namespace Clocked
open MergeContainer

def step (env : Env) (s : Clocked) : Turn → Option Clocked
  | .advance time => if s.clock ≤ time then some {s with clock := time} else none
  | .merge action =>
    if action.reads s.clock then (s.merge.step env action).map fun merge => {s with merge}
    else none

theorem step_merge {env : Env} {s next : Clocked} {action : Action}
    (stepped : s.step env (.merge action) = some next) :
    action.reads s.clock = true ∧ s.merge.step env action = some next.merge ∧ next.clock = s.clock := by
  simp only [step] at stepped
  split at stepped
  next reads =>
    obtain ⟨merge,moved,rfl⟩ := Option.map_eq_some_iff.mp stepped
    exact ⟨reads,moved,rfl⟩
  next => contradiction

theorem step_advance {env : Env} {s next : Clocked} {time : Int}
    (stepped : s.step env (.advance time) = some next) :
    s.clock ≤ time ∧ next = {s with clock := time} := by
  simp only [step] at stepped
  split at stepped
  next later => exact ⟨later,(Option.some.inj stepped).symm⟩
  next => contradiction

def setStart (start clock : Int) : Clocked := ⟨MergeContainer.setStart start,clock⟩

theorem run_merge {env : Env} {start clock : Int} {allowed : Clocked → Turn → Prop} {s : Clocked}
    (run : Run (step env) allowed (setStart start clock) s) :
    Run (MergeContainer.step env) Always (MergeContainer.setStart start) s.merge := by
  refine run.seen Clocked.merge fun state next turn _ stepped => ?_
  cases turn with
  | advance time =>
    left
    rw [(step_advance stepped).2]
  | merge action =>
    right
    exact ⟨action,trivial,(step_merge stepped).2.1⟩

def gone (env : Env) (c : MergeContainer) : List Int :=
  c.output.map (·.startTime) ++ c.past.purgedLegs.map (fun leg => env.stamp leg.startTime)

theorem gone_of_output {env : Env} {c : MergeContainer} {record : CallRecord}
    (out : record ∈ c.output) : record.startTime ∈ gone env c :=
  List.mem_append_left _ (List.mem_map_of_mem out)

theorem gone_of_purged {env : Env} {c : MergeContainer} {leg : CallLeg}
    (purged : leg ∈ c.past.purgedLegs) : env.stamp leg.startTime ∈ gone env c :=
  List.mem_append_right _ (List.mem_map.mpr ⟨leg,purged,rfl⟩)

/-- Everything kept starts after everything gone. -/
def CommonCutoff (env : Env) (c : MergeContainer) : Prop :=
  ∀ record ∈ c.held,
    (∀ emitted ∈ c.output, emitted.startTime < record.startTime) ∧
    (∀ leg ∈ c.past.purgedLegs, env.stamp leg.startTime ≤ record.startTime)

@[simp] def saveTime : Phase → Option Int
  | .walk save => some save
  | .enqueue save _ => some save
  | .purge save _ => some save
  | _ => none

/-- The two ways to lose the common cut-off are left out: inside the loops of an
iteration the clock does not move so far that a record already passed over becomes
due, and the cut-off fits an `int`. -/
def Steady (env : Env) (s : Clocked) : Turn → Prop
  | .advance time =>
    match saveTime s.merge.phase with
    | some save => ∀ record ∈ s.merge.data, expired env save time record.startTime = false
    | none => True
  | .merge .work =>
    match s.merge.phase with
    | .accept [] [] => s.merge.recordSaveTime env = s.merge.maxLegTime - env.maxCallTime
    | _ => True
  | .merge _ => True

instance (env : Env) (s : Clocked) (turn : Turn) : Decidable (Steady env s turn) := by
  unfold Steady
  split
  · split <;> infer_instance
  · split <;> infer_instance
  · infer_instance

theorem expired_iff (env : Env) (save now stamp : Int) :
    expired env save now stamp = true ↔ stamp < save ∧ stamp + env.maxCallTime < now := by
  simp [expired]

theorem not_expired_iff (env : Env) (save now stamp : Int) :
    expired env save now stamp = false ↔ stamp < save → now ≤ stamp + env.maxCallTime := by
  simp [expired]

/-- What is gone was due, and is due at every later cut-off; what a pass has kept is
not due at the present one. -/
structure Cut (env : Env) (s : Clocked) : Prop where
  gone : ∀ stamp ∈ gone env s.merge, stamp < s.merge.maxLegTime - env.maxCallTime ∧
    stamp + env.maxCallTime < s.clock
  save : ∀ save, saveTime s.merge.phase = some save → save = s.merge.maxLegTime - env.maxCallTime
  kept : ∀ save, saveTime s.merge.phase = some save → ∀ record ∈ s.merge.data,
    expired env save s.clock record.startTime = false
  due : ∀ record ∈ s.merge.phase.record, record.startTime < s.merge.maxLegTime - env.maxCallTime ∧
    record.startTime + env.maxCallTime < s.clock
  apart : s.merge.phase.settled = true → ∀ record ∈ s.merge.data, ∀ stamp ∈ Clocked.gone env s.merge,
    stamp < record.startTime

theorem due_before_kept {env : Env} {save now stamp start : Int}
    (due : stamp < save ∧ stamp + env.maxCallTime < now)
    (kept : expired env save now start = false) : stamp < start := by
  have early := (not_expired_iff env save now start).mp kept
  by_contra late
  have within := early (by omega)
  omega

theorem advance_cut {env : Env} {s next : Clocked} {time : Int} (cut : Cut env s)
    (steady : Steady env s (.advance time)) (stepped : s.step env (.advance time) = some next) :
    Cut env next := by
  obtain ⟨gone,save,kept,due,apart⟩ := cut
  obtain ⟨later,rfl⟩ := step_advance stepped
  refine ⟨?_,save,?_,?_,apart⟩
  · intro stamp member
    have before := gone stamp member
    exact ⟨before.1,by dsimp only; omega⟩
  · intro limit passing record member
    have still := steady
    simp only [Steady,passing] at still
    exact still record member
  · intro record member
    have before := due record member
    exact ⟨before.1,by dsimp only; omega⟩

theorem Cut.leaves {env : Env} {b c : MergeContainer} {clock limit left : Int}
    (cut : Cut env ⟨b,clock⟩) (passing : saveTime b.phase = some limit)
    (settled : b.phase.settled = true) (elapsed : left < limit ∧ left + env.maxCallTime < clock)
    (grown : ∀ stamp ∈ Clocked.gone env c, stamp ∈ Clocked.gone env b ∨ stamp = left) :
    (∀ stamp ∈ Clocked.gone env c,
      stamp < b.maxLegTime - env.maxCallTime ∧ stamp + env.maxCallTime < clock) ∧
    ∀ record ∈ b.data, ∀ stamp ∈ Clocked.gone env c, stamp < record.startTime := by
  refine ⟨?_,?_⟩
  · intro stamp member
    rcases grown stamp member with old | new
    · exact cut.gone stamp old
    · rw [new,← cut.save limit passing]
      exact elapsed
  · intro record member stamp out
    rcases grown stamp out with old | new
    · exact cut.apart settled record member stamp old
    · rw [new]
      exact due_before_kept elapsed (cut.kept limit passing record member)

theorem merge_cut {env : Env} {s next : Clocked} {action : Action} (cut : Cut env s)
    (steady : Steady env s (.merge action)) (stepped : s.step env (.merge action) = some next) :
    Cut env next := by
  obtain ⟨reads,moved,same⟩ := step_merge stepped
  obtain ⟨c,clock⟩ := next
  obtain ⟨b,now⟩ := s
  dsimp only at reads moved same
  subst same
  have leaves {c : MergeContainer} {limit left : Int} := @Cut.leaves env b c clock limit left cut
  obtain ⟨gone,save,kept,due,apart⟩ := cut
  dsimp only at gone save kept due apart
  cases step_cases moved with
  | dequeueLegs batch phase bound =>
    exact ⟨gone,by simp,by simp,by simp,fun _ => apart (by simp [phase])⟩
  | nothing phase =>
    exact ⟨gone,by simp,by simp,by simp,fun _ => apart (by simp [phase])⟩
  | dequeueLinks legsIn batch phase bound =>
    exact ⟨gone,by simp,by simp,by simp,by simp⟩
  | addLeg leg legsIn linksIn phase =>
    refine ⟨?_,by simp,by simp,by simp,by simp⟩
    intro stamp member
    have before := gone stamp (by simpa [Clocked.gone] using member)
    have grown := b.addLeg_maxLegTime env leg
    exact ⟨by dsimp only; omega,before.2⟩
  | addLink link linksIn phase =>
    exact ⟨gone,by simp,by simp,by simp,by simp⟩
  | regulate phase =>
    have fits : b.recordSaveTime env = b.maxLegTime - env.maxCallTime := by
      simpa [Steady,phase] using steady
    refine ⟨?_,?_,by simp,by simp,by simp⟩
    · simpa [Clocked.gone] using gone
    · simpa using fits
  | pass limit time record rest phase next passed =>
    have current : time = clock := by simpa [Action.reads] using reads
    have exactly := save limit (by simp [phase])
    refine ⟨gone,?_,?_,?_,fun _ => apart (by simp [phase])⟩
    · intro bound passing
      cases Option.some.inj passing
      exact exactly
    · intro bound passing
      cases Option.some.inj passing
      exact kept limit (by simp [phase])
    · intro other member
      cases List.mem_singleton.mp member
      have elapsed := (expired_iff env limit time record.startTime).mp passed
      rw [matched_startTime]
      exact ⟨exactly ▸ elapsed.1,current ▸ elapsed.2⟩
  | keep limit time record rest phase next early =>
    have current : time = clock := by simpa [Action.reads] using reads
    have exactly := save limit (by simp [phase])
    have notDue : expired env limit clock (b.matched record).startTime = false := by
      rw [matched_startTime,← current]
      exact early
    refine ⟨gone,?_,?_,by simp,?_⟩
    · intro bound passing
      cases Option.some.inj passing
      exact exactly
    · intro bound passing other member
      cases Option.some.inj passing
      rcases List.mem_append.mp member with old | new
      · exact kept limit (by simp [phase]) other old
      · cases List.mem_singleton.mp new
        exact notDue
    · -- what left so far was due at this cut-off, the record just kept is not
      intro _ other member stamp left
      rcases List.mem_append.mp member with old | new
      · exact apart (by simp [phase]) other old stamp left
      · cases List.mem_singleton.mp new
        have before := gone stamp left
        exact due_before_kept ⟨exactly ▸ before.1,before.2⟩ notDue
  | enqueue limit record phase =>
    have exactly := save limit (by simp [phase])
    have elapsed := due record (by simp [phase])
    obtain ⟨left,before⟩ := leaves (c := {b with phase := .walk limit,output := b.output ++ [record]})
      (by simp [phase]) (by simp [phase]) ⟨exactly ▸ elapsed.1,elapsed.2⟩ (by
        intro stamp member
        simp only [Clocked.gone,List.map_append,List.mem_append,List.map_cons,List.map_nil,
          List.mem_singleton] at member ⊢
        tauto)
    refine ⟨left,?_,?_,by simp,fun _ => before⟩
    · simpa [phase] using save
    · simpa [phase] using kept
  | walked limit phase done =>
    refine ⟨gone,?_,?_,by simp,fun _ => apart (by simp [phase])⟩
    · simpa [phase] using save
    · simpa [phase] using kept
  | purgeLeg limit time cursor key leg phase next passed =>
    have current : time = clock := by simpa [Action.reads] using reads
    have exactly := save limit (by simp [phase])
    have elapsed := (expired_iff env limit time _).mp passed
    rw [current] at elapsed
    obtain ⟨left,before⟩ := leaves (c := {b with
        phase := .purge limit (some key)
        legs := b.legs.erase key
        past := {b.past with purgedLegs := b.past.purgedLegs ++ [leg]}})
      (by simp [phase]) (by simp [phase]) elapsed (by
        intro stamp member
        simp only [Clocked.gone,List.map_append,List.mem_append,List.map_cons,List.map_nil,
          List.mem_singleton] at member ⊢
        tauto)
    refine ⟨left,?_,?_,by simp,fun _ => before⟩
    · simpa [phase] using save
    · simpa [phase] using kept
  | keepLeg limit time cursor key leg phase next early =>
    refine ⟨gone,?_,?_,by simp,fun _ => apart (by simp [phase])⟩
    · simpa [phase] using save
    · simpa [phase] using kept
  | purgeLinks limit cursor phase done =>
    exact ⟨gone,by simp,by simp,by simp,fun _ => apart (by simp [phase])⟩

theorem step_cut {env : Env} {s next : Clocked} {turn : Turn} (cut : Cut env s)
    (steady : Steady env s turn) (stepped : s.step env turn = some next) : Cut env next := by
  cases turn with
  | advance time => exact advance_cut cut steady stepped
  | merge action => exact merge_cut cut steady stepped

theorem setStart_cut (env : Env) (start clock : Int) : Cut env (setStart start clock) := by
  refine ⟨?_,?_,?_,?_,?_⟩ <;>
    simp [setStart,MergeContainer.setStart,Clocked.gone]

theorem run_cut {env : Env} {start clock : Int} {s : Clocked}
    (run : Run (step env) (Steady env) (setStart start clock) s) : Cut env s :=
  run.invariant (setStart_cut env start clock) fun _ _ _ _ cut steady stepped =>
    step_cut cut steady stepped

/-- In a run in which no pass is overtaken by the clock and the cut-off fits an `int`,
after every iteration all that is kept starts after all that left. -/
theorem common_cutoff (env : Env) (start clock : Int) (s : Clocked)
    (run : Run (step env) (Steady env) (setStart start clock) s) (idle : s.merge.phase.idle = true) :
    CommonCutoff env s.merge := by
  have cut := run_cut run
  have phase := Phase.idle_iff.mp idle
  have whole := run_rest (run_merge run) (by simp [phase])
  intro record member
  have present : record ∈ s.merge.data := by simpa [held,phase,whole] using member
  have apart := cut.apart (by simp [phase]) record present
  refine ⟨?_,?_⟩
  · intro emitted out
    exact apart emitted.startTime (gone_of_output out)
  · intro leg purged
    exact (apart (env.stamp leg.startTime) (gone_of_purged purged)).le

theorem common_cutoff_oneCall : ∃ s : Clocked,
    (s.merge.output.length = 1 ∧ s.merge.held.length = 1) ∧ CommonCutoff shortCalls s.merge := by
  obtain ⟨s,run,good⟩ := exists_run (step shortCalls) (Steady shortCalls) (setStart 0 0)
    (fun s => s.merge.output.length == 1 && s.merge.held.length == 1 && s.merge.phase.idle)
    (.advance 1000 :: oneCall.map .merge) (by decide)
  simp only [Bool.and_eq_true,beq_iff_eq] at good
  exact ⟨s,good.1,common_cutoff shortCalls 0 0 s run good.2⟩

def overtaken : List Turn :=
  [.merge (.dequeueLegs [.row "a" true "1970-01-01 00:00:05",.row "b" true "1970-01-01 00:00:08",
      .row "m" true "1970-01-01 00:01:40"]),
    .merge (.dequeueLinks []),.merge .work,.merge .work,.merge .work,.merge .work,
    .merge (.getTime 0),.advance 1000,.merge (.getTime 1000),.merge .work,.merge (.getTime 1000),
    .merge .work,.merge .work]

theorem cutoff_overtaken : ¬∀ (env : Env) (start clock : Int) (s : Clocked),
    Run (step env) Always (setStart start clock) s → s.merge.phase.idle = true →
      CommonCutoff env s.merge := by
  intro common
  obtain ⟨s,run,good⟩ := exists_run (step shortCalls) Always (setStart 0 0)
    (fun s => s.merge.phase.idle && (s.merge.held.head?.map (·.startTime) == some 5) &&
      (s.merge.output.head?.map (·.startTime) == some 8)) overtaken (by decide)
  simp only [Bool.and_eq_true,beq_iff_eq] at good
  obtain ⟨⟨idle,kept⟩,left⟩ := good
  obtain ⟨record,first,early⟩ := Option.map_eq_some_iff.mp kept
  obtain ⟨emitted,out,late⟩ := Option.map_eq_some_iff.mp left
  have before := (common shortCalls 0 0 s run idle record (List.mem_of_head? first)).1 emitted
    (List.mem_of_head? out)
  omega

end Clocked
end Call45Aggr
