import Call45Aggr.MergeCutoff
import Call45Aggr.Library.Walk

/-! What an iteration of the merge leaves behind: nothing that was due when its loops
began, however far the clock of the link reader moves while they run. -/
namespace Call45Aggr
open Library

/-- The merge with the link reader's clock, and what the clock read when the loops of the
last iteration began. -/
structure Evicting where
  inner : Clocked
  began : Int

namespace Evicting
open MergeContainer

/-- The step after which the loops of an iteration run. -/
def begins (s : Evicting) : Turn → Bool
  | .merge .work =>
    match s.inner.merge.phase with
    | .accept [] [] => true
    | _ => false
  | _ => false

def step (env : Env) (s : Evicting) (turn : Turn) : Option Evicting :=
  (s.inner.step env turn).map fun inner => {
    inner
    began := if s.begins turn then s.inner.clock else s.began}

def setStart (start clock : Int) : Evicting := ⟨.setStart start clock,clock⟩

/-- Not due at the newest cut-off, by the clock of the beginning. -/
def NotDue (env : Env) (s : Evicting) (stamp : Int) : Prop :=
  expired env (s.inner.merge.recordSaveTime env) s.began stamp = false

/-- All that the containers hold is not due. -/
structure Evicted (env : Env) (s : Evicting) : Prop where
  records : ∀ record ∈ s.inner.merge.held, s.NotDue env record.startTime
  legs : ∀ leg ∈ s.inner.merge.legs.values, s.NotDue env (env.stamp leg.startTime)
  links : ∀ cll ∈ s.inner.merge.links.values,
    s.inner.merge.recordSaveTime env ≤ env.stamp cll.front.linkStartTime

@[simp] def polls : Phase → Bool
  | .poll => true
  | .polled _ => true
  | _ => false

/-- `data_` up to the iterator of the record loop, and `legs_` up to that of the leg loop,
have been through the test of this iteration. -/
structure Swept (env : Env) (s : Evicting) : Prop where
  clock : s.began ≤ s.inner.clock
  save : ∀ save, Clocked.saveTime s.inner.merge.phase = some save → save = s.inner.merge.recordSaveTime env
  records : s.inner.merge.phase.settled = true → ∀ record ∈ s.inner.merge.data, s.NotDue env record.startTime
  legs : ∀ save cursor, s.inner.merge.phase = .purge save cursor → ∀ entry ∈ s.inner.merge.legs.entries,
    entry ∉ s.inner.merge.legs.after cursor → s.NotDue env (env.stamp entry.2.startTime)
  done : polls s.inner.merge.phase = true →
    (∀ leg ∈ s.inner.merge.legs.values, s.NotDue env (env.stamp leg.startTime)) ∧
    ∀ cll ∈ s.inner.merge.links.values,
      s.inner.merge.recordSaveTime env ≤ env.stamp cll.front.linkStartTime

theorem notDue_of_early {env : Env} {save began now stamp : Int} (before : began ≤ now)
    (early : expired env save now stamp = false) : expired env save began stamp = false := by
  rw [Clocked.not_expired_iff] at early ⊢
  intro old
  exact before.trans (early old)

theorem step_inner {env : Env} {s next : Evicting} {turn : Turn} (stepped : s.step env turn = some next) :
    s.inner.step env turn = some next.inner ∧ next.began = if s.begins turn then s.inner.clock else s.began := by
  obtain ⟨inner,moved,rfl⟩ := Option.map_eq_some_iff.mp stepped
  exact ⟨moved,rfl⟩

theorem run_merge {env : Env} {start clock : Int} {s : Evicting}
    (run : Run (step env) Always (setStart start clock) s) :
    Run (MergeContainer.step env) Always (MergeContainer.setStart start) s.inner.merge := by
  have inner : Run (Clocked.step env) Always (Clocked.setStart start clock) s.inner :=
    run.seen Evicting.inner fun _ _ turn _ stepped => .inr ⟨turn,trivial,(step_inner stepped).1⟩
  exact Clocked.run_merge inner

theorem mem_after_of_next {m : SortedMap String CallLeg} {cursor : Option String} {key : String} {leg : CallLeg}
    (next : m.next? cursor = some (key,leg)) {entry : String × CallLeg} (ahead : entry ∈ m.after cursor) :
    entry = (key,leg) ∨ entry ∈ m.after (some key) := by
  rw [SortedMap.next?_eq_head?] at next
  obtain ⟨rest,split⟩ := List.head?_eq_some_iff.mp next
  rw [SortedMap.after_next split]
  rw [split] at ahead
  exact List.mem_cons.mp ahead

theorem swept_key {env : Env} {s : Evicting} (swept : s.Swept env) {save : Int} {cursor : Option String}
    {key : String} {leg : CallLeg} (phase : s.inner.merge.phase = .purge save cursor)
    (next : s.inner.merge.legs.next? cursor = some (key,leg)) {entry : String × CallLeg}
    (member : entry ∈ s.inner.merge.legs.entries) (visited : entry ∉ s.inner.merge.legs.after (some key))
    (other : entry ≠ (key,leg)) : s.NotDue env (env.stamp entry.2.startTime) := by
  refine swept.legs save cursor phase entry member fun ahead => ?_
  rcases mem_after_of_next next ahead with same | later
  · exact other same
  · exact visited later

theorem begin_swept {env : Env} {s next : Evicting} {action : Action}
    (begun : s.begins (.merge action) = true) (stepped : s.step env (.merge action) = some next) :
    next.Swept env := by
  obtain ⟨inner,began⟩ := step_inner stepped
  obtain ⟨_,moved,clock⟩ := Clocked.step_merge inner
  obtain ⟨⟨merge,now⟩,began'⟩ := next
  dsimp only at moved began clock
  rw [if_pos begun] at began
  subst clock began
  cases MergeContainer.step_cases moved with
  | regulate phase =>
    refine ⟨le_refl _,?_,by simp,by simp,by simp⟩
    intro limit passing
    cases Option.some.inj passing
    simp [recordSaveTime]
  | enqueue _ _ phase | walked _ phase | purgeLinks _ _ phase | addLeg _ _ _ phase | addLink _ _ phase =>
    simp [begins,phase] at begun
  | _ => simp [begins] at begun

theorem merge_swept {env : Env} {s next : Evicting} {action : Action} (swept : s.Swept env)
    (within : s.begins (.merge action) = false) (stepped : s.step env (.merge action) = some next) :
    next.Swept env := by
  obtain ⟨inner,began⟩ := step_inner stepped
  obtain ⟨reads,moved,same⟩ := Clocked.step_merge inner
  have key {save : Int} {cursor : Option String} {key : String} {leg : CallLeg} :=
    @swept_key env s swept save cursor key leg
  obtain ⟨⟨merge,now⟩,began'⟩ := next
  dsimp only at moved began same
  subst same
  rw [if_neg (by simp [within])] at began
  subst began
  obtain ⟨clock,save,records,legs,done⟩ := swept
  cases MergeContainer.step_cases moved with
  | dequeueLegs batch phase bound =>
    exact ⟨clock,by simp,fun _ => records (by simp [phase]),by simp,fun _ => done (by simp [phase])⟩
  | nothing phase =>
    exact ⟨clock,by simp,fun _ => records (by simp [phase]),by simp,fun _ => done (by simp [phase])⟩
  | dequeueLinks legsIn batch phase bound =>
    exact ⟨clock,by simp,by simp,by simp,by simp⟩
  | addLeg leg legsIn linksIn phase =>
    exact ⟨clock,by simp,by simp,by simp,by simp⟩
  | addLink link linksIn phase =>
    exact ⟨clock,by simp,by simp,by simp,by simp⟩
  | regulate phase => simp [begins,phase] at within
  | pass limit time record rest phase next due =>
    refine ⟨clock,?_,fun _ => records (by simp [phase]),by simp,by simp⟩
    intro other passing
    exact save other (by simpa [phase] using passing)
  | keep limit time record rest phase next early =>
    have current : time = s.inner.clock := by simpa [Action.reads] using reads
    refine ⟨clock,?_,?_,by simp,by simp⟩
    · intro other passing
      exact save other (by simpa [phase] using passing)
    · intro _ other member
      rcases List.mem_append.mp member with old | new
      · exact records (by simp [phase]) other old
      · cases List.mem_singleton.mp new
        have cutoff := save limit (by simp [phase])
        subst current
        rw [cutoff] at early
        rw [matched_startTime]
        exact notDue_of_early clock early
  | enqueue limit record phase =>
    refine ⟨clock,?_,fun _ => records (by simp [phase]),by simp,by simp⟩
    intro other passing
    exact save other (by simpa [phase] using passing)
  | walked limit phase done =>
    refine ⟨clock,?_,fun _ => records (by simp [phase]),?_,by simp⟩
    · intro other passing
      exact save other (by simpa [phase] using passing)
    · intro other cursor same entry member visited
      cases same
      exact absurd member visited
  | purgeLeg limit time cursor mark leg phase next due =>
    refine ⟨clock,?_,fun _ => records (by simp [phase]),?_,by simp⟩
    · intro other passing
      exact save other (by simpa [phase] using passing)
    · intro other cursor' same entry member visited
      cases same
      obtain ⟨present,apart⟩ := SortedMap.mem_erase.mp member
      refine key phase next present ?_ ?_
      · intro ahead
        exact visited (SortedMap.mem_after.mpr ⟨member,(SortedMap.mem_after.mp ahead).2⟩)
      · rintro rfl
        exact apart rfl
  | keepLeg limit time cursor mark leg phase next early =>
    have current : time = s.inner.clock := by simpa [Action.reads] using reads
    refine ⟨clock,?_,fun _ => records (by simp [phase]),?_,by simp⟩
    · intro other passing
      exact save other (by simpa [phase] using passing)
    · intro other cursor' same entry member visited
      cases same
      by_cases this : entry = (mark,leg)
      · have cutoff := save limit (by simp [phase])
        subst this current
        rw [cutoff] at early
        exact notDue_of_early clock early
      · exact key phase next member visited this
  | purgeLinks limit cursor phase done =>
    have cutoff := save limit (by simp [phase])
    have walked : s.inner.merge.legs.after cursor = [] := by
      rw [SortedMap.next?_eq_head?] at done
      exact List.head?_eq_none_iff.mp done
    refine ⟨clock,by simp,fun _ => records (by simp [phase]),by simp,fun _ => ⟨?_,?_⟩⟩
    · intro leg member
      obtain ⟨name,found⟩ := SortedMap.mem_values.mp member
      exact legs limit cursor phase (name,leg) (SortedMap.find?_eq_some.mp found) (by simp [walked])
    · intro cll member
      obtain ⟨name,found⟩ := SortedMap.mem_values.mp member
      have fresh := (SortedMap.find?_filter.mp found).2
      rw [cutoff] at fresh
      have kept : s.inner.merge.recordSaveTime env ≤ env.stamp cll.front.linkStartTime := by
        simpa [stale] using fresh
      exact kept

theorem advance_swept {env : Env} {s next : Evicting} {time : Int} (swept : s.Swept env)
    (stepped : s.step env (.advance time) = some next) : next.Swept env := by
  obtain ⟨moved,began⟩ := step_inner stepped
  obtain ⟨later,inner⟩ := Clocked.step_advance moved
  obtain ⟨inner',began'⟩ := next
  dsimp only at inner began
  have kept : began' = s.began := by simpa [begins] using began
  subst kept inner
  exact ⟨swept.clock.trans later,swept.save,swept.records,swept.legs,swept.done⟩

theorem setStart_swept (env : Env) (start clock : Int) : (setStart start clock).Swept env := by
  refine ⟨le_refl _,?_,?_,?_,?_⟩ <;>
    simp [setStart,Clocked.setStart,MergeContainer.setStart,SortedMap.empty,SortedMap.values]

/-- In any run, whatever the clock does while the loops run: when the merge polls, no
record, leg or vector of links it still holds was due when its last iteration began. -/
theorem nothing_due_left (env : Env) (start clock : Int) (s : Evicting)
    (run : Run (step env) Always (setStart start clock) s) (idle : s.inner.merge.phase.idle = true) :
    s.Evicted env := by
  have swept : s.Swept env := by
    refine run.invariant (setStart_swept env start clock) fun state _ turn _ swept _ stepped => ?_
    cases turn with
    | advance time => exact advance_swept swept stepped
    | merge action =>
      cases begun : state.begins (.merge action) with
      | true => exact begin_swept begun stepped
      | false => exact merge_swept swept begun stepped
  have phase := Phase.idle_iff.mp idle
  have whole := run_rest (run_merge run) (by simp [phase])
  obtain ⟨legs,links⟩ := swept.done (by simp [phase])
  refine ⟨fun record member => ?_,legs,links⟩
  exact swept.records (by simp [phase]) record (by simpa [held,phase,whole] using member)

theorem nothing_due_left_oneCall : ∃ s : Evicting,
    (s.inner.merge.output.length = 1 ∧ s.inner.merge.held.length = 1 ∧ s.began = 1000) ∧ s.Evicted shortCalls := by
  obtain ⟨s,run,good⟩ := exists_run (step shortCalls) Always (setStart 0 0)
    (fun s => s.inner.merge.output.length == 1 && s.inner.merge.held.length == 1 && s.began == 1000 &&
      s.inner.merge.phase.idle)
    (.advance 1000 :: oneCall.map .merge) (by decide)
  simp only [Bool.and_eq_true,beq_iff_eq,and_assoc] at good
  exact ⟨s,⟨good.1,good.2.1,good.2.2.1⟩,nothing_due_left shortCalls 0 0 s run good.2.2.2⟩

end Evicting
end Call45Aggr
