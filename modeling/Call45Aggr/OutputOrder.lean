import Call45Aggr.LegCompleteness

/-! The order in which calls leave the merge. The rows of a window come in the order of their
ids and a batch may end inside a window, but no window is longer than the call time that the
cut-off stays behind the latest leg, so a call that is read later also starts later. -/
namespace Call45Aggr
open Library

namespace Reading
variable {Row : Type} {src : Source Row} {settings : Settings}

/-- No window is longer than `width` seconds, so no row comes much after a later one. -/
structure Spaced (src : Source Row) (width : Int) (s : Reading Row) : Prop where
  window : s.reader.stopTime - s.reader.startTime ≤ width
  closed : s.reader.phase = .closed → s.reader.startTime = s.reader.stopTime
  near : s.read.Pairwise fun row later => src.start row < src.start later + width * 1000000

theorem widen_spaced {width : Int} {s next : Reading Row} {found : Bool}
    (long : seconds settings.maxCallTime ≤ width) (short : seconds settings.readThresholdSecond ≤ width)
    (spaced : s.Spaced src width) (stepped : step src settings s (.widen found) = some next) :
    next.Spaced src width := by
  simp only [step] at stepped
  split at stepped
  next phase =>
    cases Option.some.inj stepped
    have same := spaced.closed phase
    refine ⟨?_,by simp,?_⟩
    · cases found with
      | true => simpa [same] using long
      | false => simpa [same] using short
    · simpa [Reading.read,phase] using spaced.near
  next => contradiction

theorem fetched_near {stemp : Int} {width : Int} {s : Reading Row} (tiled : s.Tiled src settings stemp)
    (spaced : s.Spaced src width) (idle : s.reader.phase = .cleared) :
    (s.output.log ++ src.orderBy (src.select s.table s.reader.startTime s.reader.stopTime)).Pairwise
      fun row later => src.start row < src.start later + width * 1000000 := by
  have upper := tiled.upper
  have window := spaced.window
  have bounds {row : Row}
      (member : row ∈ src.orderBy (src.select s.table s.reader.startTime s.reader.stopTime)) :
      s.reader.startTime * 1000000 < src.start row ∧ src.start row ≤ s.reader.stopTime * 1000000 :=
    (src.mem_select.mp ((src.orderBy_perm _).subset member)).2
  refine List.pairwise_append.mpr ⟨?_,?_,?_⟩
  · simpa [Reading.read,idle] using spaced.near
  · refine List.pairwise_of_forall_mem_list fun row first later second => ?_
    have before := (bounds first).2
    have after := (bounds second).1
    omega
  · intro row old later new
    have before := tiled.closed (by simp [idle]) old
    have after := (bounds new).1
    omega

theorem step_spaced {stemp width : Int} {s next : Reading Row} {action : ReadAction Row}
    (long : seconds settings.maxCallTime ≤ width) (short : seconds settings.readThresholdSecond ≤ width)
    (tiled : s.Tiled src settings stemp) (spaced : s.Spaced src width)
    (stepped : step src settings s action = some next) : next.Spaced src width := by
  have positive := seconds_nonneg settings.maxCallTime
  cases step_cases stepped with
  | widen found wide phase wider => exact widen_spaced long short spaced stepped
  | fetch phase =>
    have near := fetched_near tiled spaced phase
    exact ⟨spaced.window,by simp,near⟩
  | close phase =>
    refine ⟨?_,fun _ => rfl,?_⟩
    · dsimp only
      omega
    · simpa [Reading.read,phase] using spaced.near
  | put row rows phase =>
    refine ⟨spaced.window,by simp,?_⟩
    simpa [Reading.read,phase] using spaced.near
  | dequeue count =>
    refine ⟨spaced.window,spaced.closed,?_⟩
    simpa [Reading.read] using spaced.near
  | tick | insert | pause => exact ⟨spaced.window,spaced.closed,spaced.near⟩
  | ripen phase | time phase | again _ phase | found _ _ phase | clear phase =>
    refine ⟨spaced.window,by simp,?_⟩
    simpa [Reading.read,phase] using spaced.near

theorem setStart_spaced {stemp clock width : Int} {table : List Row}
    (short : seconds settings.readThresholdSecond ≤ width) :
    (setStart settings stemp table clock).Spaced src width := by
  refine ⟨?_,by simp [setStart,Reader.setStart],by simp [setStart,Reader.setStart,Reading.read,Fifo.log]⟩
  simpa [setStart,Reader.setStart] using short

theorem own_received {s next : Reading Row} {action : ReadAction Row} (own : action.own = true)
    (stepped : step src settings s action = some next) : next.output.received = s.output.received := by
  cases step_cases stepped with
  | pause | dequeue => simp [ReadAction.own] at own
  | _ => rfl

/-- A row not dequeued yet starts at most `width` before any that was. -/
theorem Spaced.front {stemp width : Int} {s : Reading Row} (spaced : s.Spaced src width)
    (tiled : s.Tiled src settings stemp) (positive : 0 ≤ width) {row : Row} (member : row ∈ s.table)
    (started : stemp * 1000000 < src.start row) : row ∈ s.output.received ∨
      ∀ taken ∈ s.output.received, src.start taken < src.start row + width * 1000000 := by
  have logged (taken : Row) (out : taken ∈ s.output.received) : taken ∈ s.output.log :=
    List.mem_append_left _ out
  have queued (waits : row ∈ s.output.pending ++ s.reader.phase.rows) (taken : Row)
      (out : taken ∈ s.output.received) : src.start taken < src.start row + width * 1000000 := by
    have near := spaced.near
    rw [Reading.read,Fifo.log,List.append_assoc] at near
    exact (List.pairwise_append.mp near).2.2 taken out row waits
  have known (read : row ∈ s.output.log) : row ∈ s.output.received ∨
      ∀ taken ∈ s.output.received, src.start taken < src.start row + width * 1000000 :=
    (List.mem_append.mp read).imp_right fun waits => queued (List.mem_append_left _ waits)
  -- the row starts in a closed window, in the chosen one, or after both
  by_cases closed : src.start row ≤ s.reader.startTime * 1000000
  · exact known (tiled.logs member started closed)
  by_cases inside : src.start row ≤ s.reader.stopTime * 1000000
  · by_cases reading : ∃ rows, s.reader.phase = .put rows
    · obtain ⟨rows,phase⟩ := reading
      rcases tiled.reading phase member (by omega) inside with read | unread
      · exact known read
      · exact .inr (queued (List.mem_append_right _ (by simpa [phase] using unread)))
    · refine .inr fun taken out => ?_
      have before := tiled.closed (fun rows phase => reading ⟨rows,phase⟩) (logged taken out)
      omega
  · refine .inr fun taken out => ?_
    have before := (tiled.bounds (logged taken out)).2
    omega

end Reading

namespace LegSide
open MergeContainer
variable {env : Env} {start : CallLeg → Int}

/-- Rows are delivered window by window, and no pass of the merge is overtaken by the clock.
Dequeues are free. -/
def Punctual (env : Env) (start : CallLeg → Int) (s : LegSide) : LegTurn → Prop
  | .read action => s.legs.Timely (ReadCallLeg.source start) env.settings action
  | .turn turn => Clocked.Steady env s.inner turn
  | .dequeueLegs _ => True

instance (s : LegSide) (turn : LegTurn) : Decidable (Punctual env start s turn) :=
  match turn with
  | .read action =>
    inferInstanceAs (Decidable (s.legs.Timely (ReadCallLeg.source start) env.settings action))
  | .turn turn => inferInstanceAs (Decidable (Clocked.Steady env s.inner turn))
  | .dequeueLegs _ => .isTrue trivial

/-- What was dequeued is what left the queue, and windows are no longer than a call. -/
structure Supplied (start : CallLeg → Int) (env : Env) (stemp : Int) (s : LegSide) : Prop where
  tiled : s.legs.Tiled (ReadCallLeg.source start) env.settings stemp
  spaced : s.legs.Spaced (ReadCallLeg.source start) env.maxCallTime
  received : s.legs.output.received = s.inner.merge.past.legs

theorem punctual_inner {stemp clock wall : Int} {table : List CallLeg} {s : LegSide}
    (run : Run (step env start) (Punctual env start) (setStart env stemp clock table wall) s) :
    Run (Clocked.step env) (Clocked.Steady env) (Clocked.setStart stemp clock) s.inner := by
  refine run.seen LegSide.inner fun state next turn punctual stepped => ?_
  cases turn with
  | read action =>
    left
    exact (step_read stepped).2.2
  | turn turn =>
    right
    exact ⟨turn,punctual,(step_turn stepped).2.1⟩
  | dequeueLegs count =>
    right
    exact ⟨.merge (.dequeueLegs _),trivial,(step_dequeue stepped).1⟩

theorem step_supplied (short : seconds env.settings.readThresholdSecond ≤ env.maxCallTime) {stemp : Int}
    {s next : LegSide} {turn : LegTurn} (supplied : Supplied start env stemp s)
    (punctual : Punctual env start s turn) (stepped : s.step env start turn = some next) :
    Supplied start env stemp next := by
  obtain ⟨tiled,spaced,received⟩ := supplied
  cases turn with
  | read action =>
    obtain ⟨own,moved,inner⟩ := step_read stepped
    refine ⟨Reading.step_tiled tiled punctual moved,Reading.step_spaced (le_refl _) short tiled spaced moved,?_⟩
    rw [inner,Reading.own_received own moved]
    exact received
  | turn turn =>
    obtain ⟨others,moved,legs⟩ := step_turn stepped
    rw [← turn_legs others moved] at received
    refine ⟨?_,?_,?_⟩
    · rw [legs]
      exact ⟨tiled.lower,tiled.upper,tiled.asked,tiled.start,tiled.stop,tiled.logged⟩
    · rw [legs]
      exact ⟨spaced.window,spaced.closed,spaced.near⟩
    · rw [legs]
      exact received
  | dequeueLegs count =>
    obtain ⟨moved,legs⟩ := step_dequeue stepped
    have taken := step_dequeued (Clocked.step_merge moved).2.1
    have dequeued : s.legs.step (ReadCallLeg.source start) env.settings (.dequeue count) = some next.legs := by
      rw [legs]
      rfl
    refine ⟨Reading.step_tiled tiled (by simp [Reading.Timely]) dequeued,
      Reading.step_spaced (le_refl _) short tiled spaced dequeued,?_⟩
    rw [legs,taken.1,← received]
    rfl

theorem run_supplied (short : seconds env.settings.readThresholdSecond ≤ env.maxCallTime) {stemp clock wall : Int}
    {table : List CallLeg} {s : LegSide}
    (run : Run (step env start) (Punctual env start) (setStart env stemp clock table wall) s) :
    Supplied start env stemp s :=
  run.invariant ⟨Reading.setStart_tiled _ _ _ _ _,Reading.setStart_spaced short,rfl⟩
    fun _ _ _ _ supplied punctual stepped => step_supplied short supplied punctual stepped

/-- What waits outside starts after what left, which was due at the cut-off. -/
theorem undequeued_late (dated : ∀ leg, env.stamp leg.startTime = start leg / 1000000)
    {stemp clock wall : Int} {table : List CallLeg} {s : LegSide}
    (run : Run (step env start) (Punctual env start) (setStart env stemp clock table wall) s) {leg : CallLeg}
    (started : stemp * 1000000 < start leg)
    (late : ∀ taken ∈ s.inner.merge.past.legs, start taken < start leg + env.maxCallTime * 1000000)
    {emitted : CallRecord} (out : emitted ∈ s.inner.merge.output) :
    emitted.startTime < env.stamp leg.startTime := by
  have inner := punctual_inner run
  have due := ((Clocked.run_cut inner).gone _ (Clocked.gone_of_output out)).1
  have length : 0 ≤ env.maxCallTime := seconds_nonneg env.settings.maxCallTime
  rw [dated]
  rcases run_peak (Clocked.run_merge inner) with first | ⟨peak,member,same⟩
  · omega
  · have near := late peak member
    rw [dated] at same
    omega

def firstOfThree : List LegTurn :=
  (Reading.window 1 ++ Reading.window 2).map .read ++ iteration 3 ++
    [.turn (.merge .work),.turn (.merge (.getTime 20)),.turn (.merge .work),.turn (.merge .work)]

end LegSide
end Call45Aggr
