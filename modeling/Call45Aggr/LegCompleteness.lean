import Call45Aggr.LinkCompleteness

/-! The merge against the leg reader: whether a call leaves with all its terminating
legs. The record test compares with the latest start seen so far, while the rows of a
window come in the order of their ids, so an earlier leg may come after a later one. -/
namespace Call45Aggr
open Library

namespace Reading
variable {Row : Type}

def InOrder (src : Source Row) (s : Reading Row) : Prop :=
  ∀ row ∈ s.output.received, ∀ later ∈ s.output.pending ++ s.reader.phase.rows,
    src.start row ≤ src.start later

theorem step_inOrder {src : Source Row} {settings : Settings} {stemp : Int} {s next : Reading Row}
    {action : ReadAction Row} (own : action.own = true) (tiled : s.Tiled src settings stemp)
    (inOrder : s.InOrder src) (stepped : step src settings s action = some next) :
    next.output.received = s.output.received ∧ next.InOrder src := by
  cases step_cases stepped with
  | tick | insert => exact ⟨rfl,inOrder⟩
  | pause | dequeue => simp [ReadAction.own] at own
  | ripen | time | again | found | clear | close | widen =>
    refine ⟨rfl,fun row taken later member => inOrder row taken later ?_⟩
    simp only [ReaderPhase.rows,List.append_nil] at member
    exact List.mem_append_left _ member
  | fetch phase =>
    refine ⟨rfl,fun row taken later member => ?_⟩
    rcases List.mem_append.mp member with waits | new
    · exact inOrder row taken later (List.mem_append_left _ waits)
    · have beyond := (src.mem_select.mp ((src.orderBy_perm _).subset new)).2.1
      have read := tiled.closed (by simp [phase]) (List.mem_append_left _ taken)
      omega
  | put first rows phase =>
    refine ⟨rfl,fun row taken later member => inOrder row taken later ?_⟩
    simpa [phase,Fifo.enqueue] using member

end Reading

/-- The merging thread, the clock of the link reader, and the leg reader. -/
structure LegSide where
  inner : Clocked
  legs : Reading CallLeg

inductive LegTurn
  | read (action : ReadAction CallLeg)
  | turn (turn : Turn)
  | dequeueLegs (count : Nat)

def Turn.dequeuesLegs : Turn → Bool
  | .merge (.dequeueLegs _) => true
  | _ => false

namespace MergeContainer

def Peak (env : Env) (stemp : Int) (c : MergeContainer) : Prop :=
  c.maxLegTime = stemp ∨ ∃ leg ∈ c.past.legs, env.stamp leg.startTime = c.maxLegTime

theorem step_peak {env : Env} {stemp : Int} {c next : MergeContainer} {action : Action}
    (peak : c.Peak env stemp) (conserved : c.Conserved env) (stepped : step env c action = some next) :
    next.Peak env stemp := by
  cases step_cases stepped with
  | dequeueLegs batch phase bound =>
    refine peak.imp_right fun ⟨leg,member,same⟩ => ⟨leg,List.mem_append_left _ member,same⟩
  | addLeg leg legsIn linksIn phase =>
    have accepted : leg ∈ c.past.legs :=
      conserved.legs.subset (by simp [legPlaces,phase])
    have grown := c.addLeg_maxLegTime env leg
    by_cases later : c.maxLegTime < env.stamp leg.startTime
    · refine .inr ⟨leg,by simpa using accepted,?_⟩
      dsimp only
      omega
    · have same : (c.addLeg env leg).maxLegTime = c.maxLegTime := by omega
      simpa [Peak,same] using peak
  | regulate phase => simpa [Peak] using peak
  | _ => exact peak

theorem run_peak {env : Env} {stemp : Int} {c : MergeContainer}
    (run : Run (step env) Always (setStart stemp) c) : c.Peak env stemp :=
  run.invariant (.inl rfl) fun _ _ _ before peak _ stepped =>
    step_peak peak (run_conserved before) stepped

def Apart (env : Env) (c : MergeContainer) : Prop :=
  ∀ leg ∈ c.past.purgedLegs, ∀ birth ∈ c.alive env, env.stamp leg.startTime < birth.2

theorem step_apart {env : Env} {c next : MergeContainer} {action : Action} (apart : c.Apart env)
    (whole : c.phase.walking = false → c.rest = [])
    (late : ∀ batch, action = .dequeueLegs batch → ∀ leg ∈ batch, ∀ gone ∈ c.past.purgedLegs,
      env.stamp gone.startTime < env.stamp leg.startTime)
    (purge : ∀ now save cursor key leg, action = .getTime now → c.phase = .purge save cursor →
      c.legs.next? cursor = some (key,leg) → expired env save now (env.stamp leg.startTime) = true →
      ∀ record ∈ c.data, env.stamp leg.startTime < record.startTime)
    (stepped : step env c action = some next) : next.Apart env := by
  have kept : ∀ gone ∈ c.past.purgedLegs, ∀ birth ∈ next.alive env,
      env.stamp gone.startTime < birth.2 := by
    intro gone purged birth member
    rcases step_alive stepped birth member with there | ⟨batch,dequeued,leg,inside,_,rfl⟩
    · exact apart gone purged birth there
    · exact late batch dequeued leg inside gone purged
  cases step_cases stepped with
  | addLeg leg legsIn linksIn phase => simpa [Apart] using kept
  | regulate phase => simpa [Apart] using kept
  | purgeLeg save now cursor key leg phase next due =>
    intro gone purged birth member
    rcases List.mem_append.mp purged with old | new
    · exact kept gone old birth member
    · cases List.mem_singleton.mp new
      have outside := whole (by simp [phase])
      obtain ⟨record,current,rfl⟩ : ∃ record ∈ c.data, record.birth = birth := by
        simpa [alive,held,outside] using member
      exact purge now save cursor key leg rfl phase next due record current
  | _ => exact kept

theorem Conserved.attached {env : Env} {c : MergeContainer} (conserved : c.Conserved env) {record : CallRecord}
    (current : record ∈ c.records) {link : CallLegLink} (mine : link ∈ record.links) :
    link ∈ c.past.links := by
  have inside : link ∈ c.recordLinks := List.mem_flatMap.mpr ⟨record,current,mine⟩
  exact conserved.links.subset (by simp [linkPlaces,inside])

theorem dequeued_claimed {env : Env} {c : MergeContainer} {save : Int} {record : CallRecord} {leg : CallLeg}
    {link : CallLegLink} (shaped : c.Shaped) (conserved : c.Conserved env) (none : c.past.replaced = [])
    (distinct : (c.past.legs.map (·.uniqueid)).Nodup)
    (sole : ∀ other ∈ c.past.links, other.uniqueidTerm = leg.uniqueid → link.uniqueidOrig = other.uniqueidOrig)
    (phase : c.phase = .enqueue save record) (dequeued : leg ∈ c.past.legs) (term : leg.orig = false)
    (mine : link ∈ record.links) (names : link.uniqueidTerm = leg.uniqueid) :
    leg ∈ c.past.purgedLegs ∨ record.legs.find? leg.uniqueid = some leg := by
  have current : record ∈ c.records := by simp [records,held,phase]
  have place := conserved.legs.symm.subset dequeued
  simp only [legPlaces,phase,Phase.legsIn,List.nil_append,none,List.map_nil,List.append_nil,
    List.mem_append] at place
  rcases place with (waits | claimed) | purged
  · -- the record has just been visited, so nothing its links name waits
    exfalso
    obtain ⟨key,found⟩ := SortedMap.mem_values.mp waits
    obtain ⟨rfl,_⟩ := shaped.keyed.leg key leg found
    have absent := (shaped.matched (by simp [phase]) record
      (by simp [visited,phase])).2 link mine
    rw [names,found] at absent
    contradiction
  · right
    obtain ⟨other,there,inside⟩ := List.mem_flatMap.mp claimed
    obtain ⟨key,present⟩ := SortedMap.mem_values.mp inside
    cases (shaped.formed other there).keyed key leg present
    have uids (one two : CallLeg) (first : one ∈ c.past.legs) (second : two ∈ c.past.legs)
        (same : one.uniqueid = two.uniqueid) : one = two :=
      List.inj_on_of_nodup_map distinct first second same
    have births := conserved.births
    have foreign : leg.uniqueid ≠ other.orig := by
      intro same
      obtain ⟨own,member,birth⟩ := List.mem_map.mp
        (births.subset (List.mem_append_left _ (List.mem_map_of_mem there)))
      obtain ⟨known,orig⟩ := List.mem_filter.mp member
      have equal := uids leg own dequeued known (same.trans (Prod.mk.inj birth).1.symm)
      rw [equal,orig] at term
      contradiction
    obtain ⟨naming,theirs,key⟩ := (shaped.formed other there).named _ leg present foreign
    have same : other.orig = record.orig := by
      rw [← (shaped.formed other there).links naming theirs,
        ← sole naming (conserved.attached there theirs) key]
      exact (shaped.formed record current).links link mine
    have calls : (callers c.past.legs).Nodup := distinct.sublist (List.filter_sublist.map _)
    cases List.inj_on_of_nodup_map (conserved.distinct calls) there current same
    exact present
  · exact .inl purged

end MergeContainer

namespace LegSide
open MergeContainer

variable (env : Env) (start : CallLeg → Int)

/-- The pause flag of the reader is the one the merge sets. -/
def step (s : LegSide) : LegTurn → Option LegSide
  | .read action =>
    if action.own then
      (s.legs.step (ReadCallLeg.source start) env.settings action).map fun legs => {s with legs}
    else none
  | .turn turn =>
    if !turn.dequeuesLegs then
      (s.inner.step env turn).map fun inner => {
        inner
        legs := {s.legs with reader := {s.legs.reader with paused := inner.merge.legPaused}}}
    else none
  | .dequeueLegs count =>
    (s.inner.step env (.merge (.dequeueLegs (s.legs.output.batch count)))).map fun inner => {
      inner
      legs := {s.legs with output := s.legs.output.dequeueBulk count}}

def setStart (stemp clock : Int) (table : List CallLeg) (wall : Int) : LegSide where
  inner := .setStart stemp clock
  legs := .setStart env.settings stemp table wall

/-- Every terminating leg that a link of the record names and that starts within the
call time of it is in the record. -/
def LegsComplete (s : LegSide) (record : CallRecord) : Prop :=
  ∀ leg ∈ s.legs.table, leg.orig = false → (∃ link ∈ record.links, link.uniqueidTerm = leg.uniqueid) →
    record.startTime * 1000000 < start leg →
    start leg ≤ (record.startTime + env.maxCallTime) * 1000000 →
    record.legs.find? leg.uniqueid = some leg

/-- Rows are delivered window by window: each is visible when its window is read. -/
def Delivered (s : LegSide) : LegTurn → Prop
  | .read action => s.legs.Timely (ReadCallLeg.source start) env.settings action
  | _ => True

/-- No dequeue leaves behind a row of the window that starts before a dequeued one, and
no pass of the merge is overtaken by the clock. -/
def Orderly (s : LegSide) : LegTurn → Prop
  | .read action => s.legs.Timely (ReadCallLeg.source start) env.settings action
  | .turn turn => Clocked.Steady env s.inner turn
  | .dequeueLegs count => ∀ leg ∈ s.legs.output.batch count,
    ∀ row ∈ s.legs.output.pending.drop count ++ s.legs.reader.phase.rows, start leg ≤ start row

instance (s : LegSide) (turn : LegTurn) : Decidable (Delivered env start s turn) := by
  unfold Delivered
  split <;> infer_instance

instance (s : LegSide) (turn : LegTurn) : Decidable (Orderly env start s turn) := by
  unfold Orderly
  split <;> infer_instance

/-- No terminating leg is named by the links of two calls. -/
def Sole (s : LegSide) : Prop :=
  ∀ leg ∈ s.inner.merge.past.legs, leg.orig = false →
    ∀ link ∈ s.inner.merge.past.links, ∀ other ∈ s.inner.merge.past.links,
      link.uniqueidTerm = leg.uniqueid → other.uniqueidTerm = leg.uniqueid →
      link.uniqueidOrig = other.uniqueidOrig

instance (s : LegSide) : Decidable s.Sole :=
  inferInstanceAs (Decidable (∀ _ ∈ _, _ → ∀ _ ∈ _, ∀ _ ∈ _, _ → _ → _))

variable {env start}

theorem step_read {s next : LegSide} {action : ReadAction CallLeg}
    (stepped : s.step env start (.read action) = some next) :
    action.own = true ∧ s.legs.step (ReadCallLeg.source start) env.settings action = some next.legs ∧
      next.inner = s.inner := by
  simp only [step] at stepped
  split at stepped
  next own =>
    obtain ⟨legs,moved,rfl⟩ := Option.map_eq_some_iff.mp stepped
    exact ⟨own,moved,rfl⟩
  next => contradiction

theorem step_turn {s next : LegSide} {turn : Turn} (stepped : s.step env start (.turn turn) = some next) :
    turn.dequeuesLegs = false ∧ s.inner.step env turn = some next.inner ∧
      next.legs = {s.legs with reader := {s.legs.reader with paused := next.inner.merge.legPaused}} := by
  simp only [step] at stepped
  split at stepped
  next others =>
    obtain ⟨inner,moved,rfl⟩ := Option.map_eq_some_iff.mp stepped
    exact ⟨by simpa using others,moved,rfl⟩
  next => contradiction

theorem step_dequeue {s next : LegSide} {count : Nat}
    (stepped : s.step env start (.dequeueLegs count) = some next) :
    s.inner.step env (.merge (.dequeueLegs (s.legs.output.batch count))) = some next.inner ∧
      next.legs = {s.legs with output := s.legs.output.dequeueBulk count} := by
  simp only [step] at stepped
  obtain ⟨inner,moved,rfl⟩ := Option.map_eq_some_iff.mp stepped
  exact ⟨moved,rfl⟩

theorem run_inner {stemp clock wall : Int} {table : List CallLeg} {s : LegSide}
    (run : Run (step env start) (Orderly env start) (setStart env stemp clock table wall) s) :
    Run (Clocked.step env) (Clocked.Steady env) (Clocked.setStart stemp clock) s.inner := by
  refine run.seen LegSide.inner fun state next turn orderly stepped => ?_
  cases turn with
  | read action =>
    left
    exact (step_read stepped).2.2
  | turn turn =>
    right
    exact ⟨turn,orderly,(step_turn stepped).2.1⟩
  | dequeueLegs count =>
    right
    exact ⟨.merge (.dequeueLegs _),trivial,(step_dequeue stepped).1⟩

/-- The reader's side of the run: what was dequeued is what left the queue, and it
starts no later than what the window still holds. -/
structure Fed (start : CallLeg → Int) (env : Env) (stemp : Int) (s : LegSide) : Prop where
  tiled : s.legs.Tiled (ReadCallLeg.source start) env.settings stemp
  received : s.legs.output.received = s.inner.merge.past.legs
  ordered : s.legs.InOrder (ReadCallLeg.source start)

theorem turn_legs {s next : Clocked} {turn : Turn} (others : turn.dequeuesLegs = false)
    (stepped : s.step env turn = some next) : next.merge.past.legs = s.merge.past.legs := by
  cases turn with
  | advance time =>
    obtain ⟨_,rfl⟩ := Clocked.step_advance stepped
    rfl
  | merge action =>
    have none : action.legs = [] := by
      cases action <;> simp_all [Turn.dequeuesLegs,Action.legs]
    rw [(step_dequeued (Clocked.step_merge stepped).2.1).1,none,List.append_nil]

theorem read_fed {stemp : Int} {s next : LegSide} {action : ReadAction CallLeg} (fed : Fed start env stemp s)
    (timely : s.legs.Timely (ReadCallLeg.source start) env.settings action)
    (stepped : s.step env start (.read action) = some next) : Fed start env stemp next := by
  obtain ⟨own,moved,inner⟩ := step_read stepped
  obtain ⟨tiled,received,ordered⟩ := fed
  obtain ⟨same,kept⟩ := Reading.step_inOrder own tiled ordered moved
  refine ⟨Reading.step_tiled tiled timely moved,?_,kept⟩
  rw [inner,same]
  exact received

theorem dequeue_fed {stemp : Int} {s next : LegSide} {count : Nat} (fed : Fed start env stemp s)
    (orderly : Orderly env start s (.dequeueLegs count))
    (stepped : s.step env start (.dequeueLegs count) = some next) : Fed start env stemp next := by
  obtain ⟨moved,legs⟩ := step_dequeue stepped
  obtain ⟨tiled,received,ordered⟩ := fed
  have taken := step_dequeued (Clocked.step_merge moved).2.1
  refine ⟨?_,?_,?_⟩
  · have dequeued : s.legs.step (ReadCallLeg.source start) env.settings (.dequeue count) =
        some next.legs := by rw [legs]; rfl
    exact Reading.step_tiled tiled (by simp [Reading.Timely]) dequeued
  · rw [legs,taken.1,← received]
    rfl
  · rw [legs]
    intro leg old row later
    rcases List.mem_append.mp old with before | now
    · refine ordered leg before row ?_
      rcases List.mem_append.mp later with waits | unread
      · exact List.mem_append_left _ (List.mem_of_mem_drop waits)
      · exact List.mem_append_right _ unread
    · exact orderly leg now row later

theorem step_fed {stemp : Int} {s next : LegSide} {turn : LegTurn} (fed : Fed start env stemp s)
    (orderly : Orderly env start s turn) (stepped : s.step env start turn = some next) :
    Fed start env stemp next := by
  cases turn with
  | read action => exact read_fed fed orderly stepped
  | turn turn =>
    obtain ⟨others,moved,legs⟩ := step_turn stepped
    obtain ⟨tiled,received,ordered⟩ := fed
    rw [← turn_legs others moved] at received
    refine ⟨?_,?_,?_⟩
    · rw [legs]
      exact ⟨tiled.lower,tiled.upper,tiled.asked,tiled.start,tiled.stop,tiled.logged⟩
    · rw [legs]
      exact received
    · rw [legs]
      exact ordered
  | dequeueLegs count => exact dequeue_fed fed orderly stepped

theorem run_fed {stemp clock wall : Int} {table : List CallLeg} {s : LegSide}
    (run : Run (step env start) (Orderly env start) (setStart env stemp clock table wall) s) :
    Fed start env stemp s := by
  refine run.invariant ⟨Reading.setStart_tiled _ _ _ _ _,rfl,?_⟩ fun _ _ _ _ fed orderly stepped =>
    step_fed fed orderly stepped
  simp [Reading.InOrder,setStart,Reading.setStart]

theorem Fed.front {stemp : Int} {s : LegSide} (fed : Fed start env stemp s) {row : CallLeg}
    (member : row ∈ s.legs.table) (started : stemp * 1000000 < start row) :
    row ∈ s.inner.merge.past.legs ∨ ∀ leg ∈ s.inner.merge.past.legs, start leg ≤ start row := by
  have source (leg : CallLeg) : (ReadCallLeg.source start).start leg = start leg := rfl
  rw [← fed.received]
  have logged (read : row ∈ s.legs.output.log) :
      row ∈ s.legs.output.received ∨ ∀ leg ∈ s.legs.output.received, start leg ≤ start row := by
    rcases List.mem_append.mp read with out | waits
    · exact .inl out
    · exact .inr fun leg taken => fed.ordered leg taken row (List.mem_append_left _ waits)
  -- the row starts in a closed window, in the chosen one, or after both
  by_cases closed : start row ≤ s.legs.reader.startTime * 1000000
  · exact logged (fed.tiled.logs member started closed)
  · by_cases inside : start row ≤ s.legs.reader.stopTime * 1000000
    · by_cases reading : ∃ rows, s.legs.reader.phase = .put rows
      · obtain ⟨rows,phase⟩ := reading
        rcases fed.tiled.reading phase member (by rw [source]; omega) inside with read | unread
        · exact logged read
        · refine .inr fun leg taken => fed.ordered leg taken row (List.mem_append_right _ ?_)
          simpa [phase] using unread
      · refine .inr fun leg taken => ?_
        have before := fed.tiled.closed (fun rows phase => reading ⟨rows,phase⟩)
          (List.mem_append_left _ taken)
        rw [source] at before
        omega
    · refine .inr fun leg taken => ?_
      have before := (fed.tiled.bounds (List.mem_append_left _ taken)).2
      rw [source] at before
      omega

theorem Fed.after {stemp : Int} {s : LegSide} (fed : Fed start env stemp s) {leg : CallLeg}
    (member : leg ∈ s.inner.merge.past.legs) : stemp * 1000000 < start leg := by
  rw [← fed.received] at member
  exact (fed.tiled.bounds (List.mem_append_left _ member)).1

theorem dequeue_late {stemp clock wall : Int} {table : List CallLeg} {s : LegSide} {count : Nat}
    (dated : ∀ leg, env.stamp leg.startTime = start leg / 1000000)
    (run : Run (step env start) (Orderly env start) (setStart env stemp clock table wall) s) :
    ∀ leg ∈ s.legs.output.batch count, ∀ gone ∈ s.inner.merge.past.purgedLegs,
      env.stamp gone.startTime < env.stamp leg.startTime := by
  intro leg inside gone purged
  have fed := run_fed run
  have inner := run_inner run
  have merge := Clocked.run_merge inner
  have length := seconds_nonneg env.settings.maxCallTime
  have before := ((Clocked.run_cut inner).gone _ (Clocked.gone_of_purged purged)).1
  have known : gone ∈ s.inner.merge.past.legs :=
    (run_conserved merge).legs.subset (by simp [legPlaces,purged])
  have started := fed.after known
  simp only [dated,Env.maxCallTime] at before ⊢
  rcases run_peak merge with first | ⟨peak,member,same⟩
  · omega
  · rw [← fed.received] at member
    have later : start peak ≤ start leg := fed.ordered peak member leg
      (List.mem_append_left _ (List.mem_of_mem_take inside))
    rw [dated] at same
    omega

theorem run_apart {stemp clock wall : Int} {table : List CallLeg} {s : LegSide}
    (dated : ∀ leg, env.stamp leg.startTime = start leg / 1000000)
    (run : Run (step env start) (Orderly env start) (setStart env stemp clock table wall) s) :
    s.inner.merge.Apart env := by
  induction run with
  | start => simp [Apart,setStart,Clocked.setStart,MergeContainer.setStart]
  | step state next turn before orderly stepped apart =>
    have inner := run_inner before
    have whole := run_rest (Clocked.run_merge inner)
    have cut := Clocked.run_cut inner
    have purge {action : Action} (reads : action.reads state.inner.clock = true) :
        ∀ now save cursor key leg, action = .getTime now → state.inner.merge.phase = .purge save cursor →
        state.inner.merge.legs.next? cursor = some (key,leg) →
        expired env save now (env.stamp leg.startTime) = true →
        ∀ record ∈ state.inner.merge.data, env.stamp leg.startTime < record.startTime := by
      intro now save cursor key leg read phase _ due record current
      subst read
      have present : now = state.inner.clock := by simpa [Action.reads] using reads
      rw [present] at due
      exact Clocked.due_before_kept ((Clocked.expired_iff env save _ _).mp due)
        (cut.kept save (by simp [phase]) record current)
    cases turn with
    | read action =>
      rw [(step_read stepped).2.2]
      exact apart
    | turn turn =>
      obtain ⟨others,moved,_⟩ := step_turn stepped
      cases turn with
      | advance time =>
        rw [(Clocked.step_advance moved).2]
        exact apart
      | merge action =>
        obtain ⟨reads,merged,_⟩ := Clocked.step_merge moved
        refine step_apart apart whole ?_ (purge reads) merged
        intro batch dequeues
        subst dequeues
        simp [Turn.dequeuesLegs] at others
    | dequeueLegs count =>
      obtain ⟨reads,merged,_⟩ := Clocked.step_merge (step_dequeue stepped).1
      refine step_apart apart whole ?_ (purge reads) merged
      intro batch dequeues
      cases dequeues
      exact dequeue_late dated before

theorem due_bounds {stemp clock wall : Int} {table : List CallLeg} {s : LegSide} {save : Int}
    {record : CallRecord} (dated : ∀ leg, env.stamp leg.startTime = start leg / 1000000)
    (run : Run (step env start) (Orderly env start) (setStart env stemp clock table wall) s)
    (phase : s.inner.merge.phase = .enqueue save record) :
    stemp ≤ record.startTime ∧ ∃ peak ∈ s.inner.merge.past.legs,
      (record.startTime + env.maxCallTime) * 1000000 < start peak := by
  have inner := run_inner run
  have merge := Clocked.run_merge inner
  have length := seconds_nonneg env.settings.maxCallTime
  have fed := run_fed run
  have due := ((Clocked.run_cut inner).due record (by simp [phase])).1
  have born : record.birth ∈ (s.inner.merge.past.legs.filter (·.orig)).map env.birth := by
    refine (run_conserved merge).births.subset (List.mem_append_left _ (List.mem_map_of_mem ?_))
    simp [records,held,phase]
  obtain ⟨leg,member,same⟩ := List.mem_map.mp born
  have started := fed.after (List.mem_filter.mp member).1
  have stamp : env.stamp leg.startTime = record.startTime := (Prod.mk.inj same).2
  rw [dated] at stamp
  have lower : stemp ≤ record.startTime := by omega
  refine ⟨lower,?_⟩
  simp only [Env.maxCallTime] at due ⊢
  rcases run_peak merge with first | ⟨peak,known,top⟩
  · omega
  · rw [dated] at top
    exact ⟨peak,known,by omega⟩

/-- In a run in which every dequeue is orderly and no pass is overtaken, a call leaves with
all its terminating legs, when legs have different uniqueids and belong to one call. -/
theorem legs_complete (env : Env) (start : CallLeg → Int)
    (dated : ∀ leg, env.stamp leg.startTime = start leg / 1000000) (stemp clock : Int)
    (table : List CallLeg) (wall : Int) (s : LegSide)
    (run : Run (step env start) (Orderly env start) (setStart env stemp clock table wall) s)
    (distinct : (s.inner.merge.past.legs.map (·.uniqueid)).Nodup) (sole : s.Sole) (save : Int)
    (record : CallRecord) (phase : s.inner.merge.phase = .enqueue save record) :
    LegsComplete env start s record := by
  intro leg member term named after within
  obtain ⟨link,mine,names⟩ := named
  have merge := Clocked.run_merge (run_inner run)
  obtain ⟨lower,peak,known,top⟩ := due_bounds dated run phase
  have dequeued : leg ∈ s.inner.merge.past.legs := by
    rcases (run_fed run).front member (by omega) with taken | late
    · exact taken
    · have bound := late peak known
      omega
  have current : record ∈ s.inner.merge.records := by simp [records,held,phase]
  have received := (run_conserved merge).attached current mine
  rcases dequeued_claimed (run_shaped merge) (run_conserved merge) (run_replaced merge distinct) distinct
    (fun other there key => sole leg dequeued term link received other there names key) phase dequeued
    term mine names with purged | found
  · have early := run_apart dated run leg purged record.birth
      (mem_alive (by simp [held,phase]))
    rw [dated] at early
    simp only [CallRecord.birth] at early
    omega
  · exact found

def legStart (leg : CallLeg) : Int := Reading.instant leg.startTime

theorem legStart_dated (leg : CallLeg) :
    LinkSide.brief.stamp leg.startTime = legStart leg / 1000000 := by
  have text : legStart leg = LinkSide.brief.stamp leg.startTime * 1000000 := rfl
  omega

def legTable : List CallLeg :=
  [{CallLeg.row "a" true "1970-01-01 00:00:05" with id := 1},
    {CallLeg.row "m" true "1970-01-01 00:00:17" with id := 2},
    {CallLeg.row "t" false "1970-01-01 00:00:12" with id := 3},
    {CallLeg.row "z" true "1970-01-01 00:01:00" with id := 4}]

def iteration (legs : Nat) : List LegTurn :=
  [.dequeueLegs 10,.turn (.merge (.dequeueLinks [.row "a" "t" "1970-01-01 00:00:05"])),
    .turn (.advance 20)] ++ List.replicate (legs + 2) (.turn (.merge .work)) ++
    [.turn (.merge (.getTime 20))]

theorem legs_complete_wholeWindow : ∃ (s : LegSide) (record : CallRecord),
    record.legs.values.length = 2 ∧ LegsComplete LinkSide.brief legStart s record := by
  obtain ⟨s,run,good⟩ := exists_run (step LinkSide.brief legStart) (Orderly LinkSide.brief legStart)
    (setStart LinkSide.brief 0 0 legTable 100000000)
    (fun s => decide (s.inner.merge.past.legs.map (·.uniqueid)).Nodup && decide s.Sole &&
      s.inner.merge.phase.record.map (·.legs.values.length) == [2])
    ((Reading.window 1 ++ Reading.window 2).map .read ++ iteration 3) (by decide)
  simp only [Bool.and_eq_true,beq_iff_eq,decide_eq_true_eq] at good
  obtain ⟨⟨distinct,sole⟩,left⟩ := good
  cases phase : s.inner.merge.phase with
  | enqueue save record =>
    have size : record.legs.values.length = 2 := by simpa [phase] using left
    exact ⟨s,record,size,legs_complete LinkSide.brief legStart legStart_dated 0 0 legTable 100000000 s run
      distinct sole save record phase⟩
  | _ => simp [phase] at left

/-- The batch is cut inside the second window, between the later leg and the earlier
one: the later leg makes the call due, and the earlier one is still to come. -/
theorem leg_left_behind : ¬∀ (env : Env) (start : CallLeg → Int),
    (∀ leg, env.stamp leg.startTime = start leg / 1000000) →
    env.settings.readThresholdSecond ≤ env.settings.maxCallTime →
    ∀ (stemp clock : Int) (table : List CallLeg) (wall : Int) (s : LegSide),
    Run (step env start) (Delivered env start) (setStart env stemp clock table wall) s →
    ∀ (save : Int) (record : CallRecord), s.inner.merge.phase = .enqueue save record →
      LegsComplete env start s record := by
  intro complete
  obtain ⟨s,run,good⟩ := exists_run (step LinkSide.brief legStart) (Delivered LinkSide.brief legStart)
    (setStart LinkSide.brief 0 0 legTable 100000000)
    (fun s => s.legs.table == legTable && s.inner.merge.phase.record.map (fun record =>
      (record.startTime,record.links.map (·.uniqueidTerm),(record.legs.find? "t").isNone)) == [(5,["t"],true)])
    ((Reading.window 1 ++ Reading.opening 1).map .read ++ iteration 2) (by decide)
  simp only [Bool.and_eq_true,beq_iff_eq] at good
  obtain ⟨table,left⟩ := good
  cases phase : s.inner.merge.phase with
  | enqueue save record =>
    simp only [phase,Phase.record,List.map_cons,List.map_nil,List.cons.injEq,Prod.mk.injEq] at left
    obtain ⟨⟨born,links,missing⟩,_⟩ := left
    obtain ⟨link,attached,names⟩ := List.map_eq_singleton_iff.mp links
    have whole := complete LinkSide.brief legStart legStart_dated (by decide) 0 0 legTable 100000000 s run
      save record phase {CallLeg.row "t" false "1970-01-01 00:00:12" with id := 3}
      (by rw [table]; decide) rfl ⟨link,by simp [attached],names⟩ (by rw [born]; decide)
      (by rw [born]; decide)
    have absent : record.legs.find? "t" = none := by simpa using missing
    have found : record.legs.find? "t" = some _ := whole
    rw [absent] at found
    contradiction
  | _ => simp [phase] at left

end LegSide
end Call45Aggr
