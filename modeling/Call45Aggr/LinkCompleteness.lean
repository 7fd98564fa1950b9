import Call45Aggr.MergeBatching
import Call45Aggr.MergeCutoff
import Call45Aggr.ExactlyOnce

/-! The merge against the link reader: whether a call leaves with all its links. The
record test trusts the reader's `startTime_`, while links of the windows before it may
still be in the queue between the two threads. -/
namespace Call45Aggr
open Library

theorem Reading.step_ahead {Row : Type} {src : Source Row} {settings : Settings} {s next : Reading Row}
    {action : ReadAction Row} (ordered : s.reader.startTime ≤ s.reader.stopTime)
    (ahead : ∀ row ∈ s.reader.phase.rows, s.reader.startTime * 1000000 < src.start row)
    (stepped : Reading.step src settings s action = some next) :
    s.reader.startTime ≤ next.reader.startTime ∧ next.reader.startTime ≤ next.reader.stopTime ∧
      (∀ row ∈ next.reader.phase.rows, next.reader.startTime * 1000000 < src.start row) ∧
      ((∀ count, action ≠ .dequeue count) → next.output.received = s.output.received ∧
        ∀ row ∈ next.output.pending, row ∈ s.output.pending ∨ s.reader.startTime * 1000000 < src.start row) := by
  cases Reading.step_cases stepped with
  | tick | insert | pause =>
    exact ⟨le_refl _,ordered,ahead,fun _ => ⟨rfl,fun _ => .inl⟩⟩
  | dequeue count => exact ⟨le_refl _,ordered,ahead,fun apart => absurd rfl (apart count)⟩
  | ripen | time | again | found | clear =>
    exact ⟨le_refl _,ordered,by simp,fun _ => ⟨rfl,fun _ => .inl⟩⟩
  | fetch phase =>
    refine ⟨le_refl _,ordered,?_,fun _ => ⟨rfl,fun _ => .inl⟩⟩
    intro row member
    have selected := (src.orderBy_perm _).subset member
    exact (src.mem_select.mp selected).2.1
  | put row rows phase =>
    refine ⟨le_refl _,ordered,?_,fun _ => ⟨rfl,?_⟩⟩
    · intro other member
      exact ahead other (by simp only [phase,ReaderPhase.rows] at member ⊢; exact List.mem_cons_of_mem _ member)
    · intro other member
      rcases List.mem_append.mp member with old | new
      · exact .inl old
      · cases List.mem_singleton.mp new
        exact .inr (ahead row (by simp [phase]))
  | close phase => exact ⟨ordered,le_refl _,by simp,fun _ => ⟨rfl,fun _ => .inl⟩⟩
  | widen found width phase wider =>
    refine ⟨le_refl _,?_,by simp,fun _ => ⟨rfl,fun _ => .inl⟩⟩
    dsimp only
    omega

namespace MergeContainer

def alive (env : Env) (c : MergeContainer) : List (String × Int) :=
  c.held.map CallRecord.birth ++ (c.phase.legsIn.filter (·.orig)).map env.birth

theorem mem_alive {env : Env} {c : MergeContainer} {record : CallRecord} (current : record ∈ c.held) :
    record.birth ∈ c.alive env :=
  List.mem_append_left _ (List.mem_map_of_mem current)

@[simp] theorem matched_birth (c : MergeContainer) (record : CallRecord) :
    (c.matched record).birth = record.birth := by
  simp [CallRecord.birth]

theorem step_legsIn {env : Env} {c next : MergeContainer} {action : Action}
    (stepped : step env c action = some next) : ∀ leg ∈ next.phase.legsIn, leg ∈ c.phase.legsIn ∨
      ∃ batch, action = .dequeueLegs batch ∧ leg ∈ batch := by
  intro leg member
  cases step_cases stepped with
  | dequeueLegs batch phase bound => exact .inr ⟨batch,rfl,member⟩
  | dequeueLinks legsIn batch phase bound => exact .inl (by simpa [phase] using member)
  | addLeg first legsIn linksIn phase =>
    left
    rw [phase]
    exact List.mem_cons_of_mem first member
  | _ => simp at member

theorem step_alive {env : Env} {c next : MergeContainer} {action : Action}
    (stepped : step env c action = some next) : ∀ birth ∈ next.alive env, birth ∈ c.alive env ∨
      ∃ batch, action = .dequeueLegs batch ∧ ∃ leg ∈ batch, leg.orig = true ∧ birth = env.birth leg := by
  intro birth member
  have accepted (leg : CallLeg) (waits : leg ∈ c.phase.legsIn) (orig : leg.orig = true) :
      env.birth leg ∈ c.alive env :=
    List.mem_append_right _ (List.mem_map_of_mem (List.mem_filter.mpr ⟨waits,orig⟩))
  rcases List.mem_append.mp member with current | waits
  · left
    obtain ⟨record,inside,same⟩ := List.mem_map.mp current
    subst same
    rcases step_held stepped record inside with old | born | visited
    · exact mem_alive old
    · obtain ⟨leg,waits,orig,same⟩ := born
      rw [same]
      exact accepted leg waits orig
    · obtain ⟨save,earlier,rest,_,next,same⟩ := visited
      rw [same,matched_birth]
      exact mem_alive (by simp [held,next])
  · obtain ⟨leg,inside,same⟩ := List.mem_map.mp waits
    obtain ⟨there,orig⟩ := List.mem_filter.mp inside
    subst same
    rcases step_legsIn stepped leg there with old | ⟨batch,dequeued,inBatch⟩
    · exact .inl (accepted leg old orig)
    · exact .inr ⟨batch,dequeued,leg,inBatch,orig,rfl⟩

def Fresh (env : Env) (c : MergeContainer) : Prop :=
  ∀ link ∈ c.past.purgedLinks, ∀ birth ∈ c.alive env, link.uniqueidOrig ≠ birth.1

theorem step_fresh {env : Env} {c next : MergeContainer} {action : Action} (fresh : c.Fresh env)
    (shaped : c.Shaped) (whole : c.phase.walking = false → c.rest = [])
    (late : ∀ batch, action = .dequeueLegs batch → ∀ leg ∈ batch, leg.orig = true →
      ∀ link ∈ c.past.purgedLinks, link.uniqueidOrig ≠ leg.uniqueid)
    (stepped : step env c action = some next) : next.Fresh env := by
  have kept : ∀ link ∈ c.past.purgedLinks, ∀ birth ∈ next.alive env, link.uniqueidOrig ≠ birth.1 := by
    intro link purged birth member
    rcases step_alive stepped birth member with there | ⟨batch,dequeued,leg,inside,orig,rfl⟩
    · exact fresh link purged birth there
    · exact late batch dequeued leg inside orig link purged
  cases step_cases stepped with
  | addLeg leg legsIn linksIn phase => simpa [Fresh] using kept
  | regulate phase => simpa [Fresh] using kept
  | purgeLinks save cursor phase done =>
    intro link purged birth member
    rcases List.mem_append.mp purged with old | new
    · exact kept link old birth member
    · obtain ⟨cll,removed,inside⟩ := List.mem_flatMap.mp new
      obtain ⟨key,found⟩ := SortedMap.mem_values.mp removed
      have present := (SortedMap.find?_filter.mp found).1
      rw [shaped.keyed.bucket key cll present link inside]
      have outside := whole (by simp [phase])
      obtain ⟨record,current,rfl⟩ : ∃ record ∈ c.data, record.birth = birth := by
        simpa [alive,held,MergeContainer.purgeLinks,outside] using member
      intro same
      subst same
      have absent := (shaped.matched (by simp [phase]) record
        (List.mem_append_left _ current)).1
      rw [CallRecord.birth,absent] at present
      contradiction
  | _ => exact kept

theorem Conserved.distinct {env : Env} {c : MergeContainer} (conserved : c.Conserved env)
    (distinct : (callers c.past.legs).Nodup) : (c.records.map (·.orig)).Nodup := by
  have firsts := conserved.births.map Prod.fst
  have calls : (c.records.map (·.orig) ++ callers c.phase.legsIn).Perm (callers c.past.legs) := by
    simpa [MergeContainer.births,callers,CallRecord.birth,Env.birth,Function.comp_def] using firsts
  exact (calls.nodup_iff.mpr distinct).of_append_left

theorem dequeued_attached {env : Env} {c : MergeContainer} {save : Int} {record : CallRecord}
    (shaped : c.Shaped) (conserved : c.Conserved env) (fresh : c.Fresh env)
    (distinct : (callers c.past.legs).Nodup) (phase : c.phase = .enqueue save record)
    {link : CallLegLink} (received : link ∈ c.past.links) (own : link.uniqueidOrig = record.orig) :
    link ∈ record.links := by
  have current : record ∈ c.held := by simp [held,phase]
  have place := conserved.links.symm.subset received
  simp only [linkPlaces,phase,Phase.linksIn,List.nil_append,List.mem_append] at place
  rcases place with (waits | attached) | purged
  · exfalso
    obtain ⟨cll,member,inside⟩ := List.mem_flatMap.mp waits
    obtain ⟨key,found⟩ := SortedMap.mem_values.mp member
    have same := (shaped.keyed.bucket key cll found link inside).symm.trans own
    have absent := (shaped.matched (by simp [phase]) record
      (by simp [visited,phase])).1
    rw [← same,found] at absent
    contradiction
  · obtain ⟨other,there,mine⟩ := List.mem_flatMap.mp attached
    have same : other.orig = record.orig := ((shaped.formed other there).links link mine).symm.trans own
    cases List.inj_on_of_nodup_map (conserved.distinct distinct) there (by simp [records,current]) same
    exact mine
  · exact absurd own (fresh link purged record.birth (mem_alive current))

end MergeContainer

/-- The merging thread and the link reader. `drained` is the reader's `startTime_` at the
last bulk dequeue that left the queue empty. -/
structure LinkSide where
  merge : MergeContainer
  links : Reading CallLegLink
  drained : Int

inductive LinkTurn
  | read (action : ReadAction CallLegLink)
  | merge (action : Action)
  | dequeueLinks (count : Nat)

def Action.dequeuesLinks : Action → Bool
  | .dequeueLinks _ => true
  | _ => false

namespace LinkSide
open MergeContainer

variable (env : Env) (start : CallLegLink → Int)

/-- The pause flag of the reader is the one the merge sets. -/
def step (s : LinkSide) : LinkTurn → Option LinkSide
  | .read action =>
    if action.own then
      (s.links.step (ReadCallLegLink.source start) env.settings action).map fun links => {s with links}
    else none
  | .merge action =>
    if action.reads s.links.reader.startTime && !action.dequeuesLinks then
      (s.merge.step env action).map fun merge => {s with
        merge
        links := {s.links with reader := {s.links.reader with paused := merge.linkPaused}}}
    else none
  | .dequeueLinks count =>
    (s.merge.step env (.dequeueLinks (s.links.output.batch count))).map fun merge => {s with
      merge
      links := {s.links with output := s.links.output.dequeueBulk count}
      drained := if s.links.output.pending.length ≤ count then s.links.reader.startTime else s.drained}

def setStart (stemp : Int) (table : List CallLegLink) (clock : Int) : LinkSide where
  merge := .setStart stemp
  links := .setStart env.settings stemp table clock
  drained := stemp

/-- Every link of the call that starts within the call time of it and was read so far is
in the record, and none of them waits in the queue. -/
def LinksComplete (s : LinkSide) (record : CallRecord) : Prop :=
  ∀ link ∈ s.links.read, link.uniqueidOrig = record.orig →
    env.stamp link.linkStartTime ≤ record.startTime + env.maxCallTime →
    link ∈ record.links ∧ link ∉ s.links.output.pending

/-- The reader's clock already lay past the call time of a due record when the queue was
last seen empty; calls have different uniqueids; and the leg of a call comes before
links of it are purged. -/
def Settled (s : LinkSide) : LinkTurn → Prop
  | .merge (.dequeueLegs batch) =>
    (callers (s.merge.past.legs ++ batch)).Nodup ∧
    ∀ leg ∈ batch, leg.orig = true → ∀ link ∈ s.merge.past.purgedLinks, link.uniqueidOrig ≠ leg.uniqueid
  | .merge (.getTime now) =>
    match s.merge.phase,s.merge.rest with
    | .walk save,record :: _ =>
      expired env save now record.startTime = true → record.startTime + env.maxCallTime < s.drained
    | _,_ => True
  | _ => True

instance (s : LinkSide) (turn : LinkTurn) : Decidable (Settled env s turn) := by
  unfold Settled
  split
  · infer_instance
  · split <;> infer_instance
  · infer_instance

variable {env start}

theorem step_read {s next : LinkSide} {action : ReadAction CallLegLink}
    (stepped : s.step env start (.read action) = some next) :
    action.own = true ∧ s.links.step (ReadCallLegLink.source start) env.settings action = some next.links ∧
      next.merge = s.merge ∧ next.drained = s.drained := by
  simp only [step] at stepped
  split at stepped
  next own =>
    obtain ⟨links,moved,rfl⟩ := Option.map_eq_some_iff.mp stepped
    exact ⟨own,moved,rfl,rfl⟩
  next => contradiction

theorem step_merge {s next : LinkSide} {action : Action}
    (stepped : s.step env start (.merge action) = some next) :
    (action.reads s.links.reader.startTime = true ∧ action.dequeuesLinks = false) ∧
      s.merge.step env action = some next.merge ∧ next.drained = s.drained ∧
      next.links = {s.links with reader := {s.links.reader with paused := next.merge.linkPaused}} := by
  simp only [step] at stepped
  split at stepped
  next allowed =>
    obtain ⟨merge,moved,rfl⟩ := Option.map_eq_some_iff.mp stepped
    exact ⟨by simpa using allowed,moved,rfl,rfl⟩
  next => contradiction

theorem step_dequeue {s next : LinkSide} {count : Nat}
    (stepped : s.step env start (.dequeueLinks count) = some next) :
    s.merge.step env (.dequeueLinks (s.links.output.batch count)) = some next.merge ∧
      next.links = {s.links with output := s.links.output.dequeueBulk count} ∧
      next.drained =
        if s.links.output.pending.length ≤ count then s.links.reader.startTime else s.drained := by
  simp only [step] at stepped
  obtain ⟨merge,moved,rfl⟩ := Option.map_eq_some_iff.mp stepped
  exact ⟨moved,rfl,rfl⟩

theorem run_merge {stemp clock : Int} {table : List CallLegLink} {allowed : LinkSide → LinkTurn → Prop}
    {s : LinkSide} (run : Run (step env start) allowed (setStart env stemp table clock) s) :
    Run (MergeContainer.step env) Always (MergeContainer.setStart stemp) s.merge := by
  refine run.seen LinkSide.merge fun state next turn _ stepped => ?_
  cases turn with
  | read action =>
    left
    exact (step_read stepped).2.2.1
  | merge action =>
    right
    exact ⟨action,trivial,(step_merge stepped).2.1⟩
  | dequeueLinks count =>
    right
    exact ⟨_,trivial,(step_dequeue stepped).1⟩

/-- What was dequeued is what left the queue; what has not been dequeued starts after
`drained`; a call that waits for the output queue ended before it. -/
structure Kept (env : Env) (start : CallLegLink → Int) (s : LinkSide) : Prop where
  received : s.links.output.received = s.merge.past.links
  clock : s.drained ≤ s.links.reader.startTime
  ordered : s.links.reader.startTime ≤ s.links.reader.stopTime
  ahead : ∀ link ∈ s.links.reader.phase.rows, s.links.reader.startTime * 1000000 < start link
  pending : ∀ link ∈ s.links.output.pending, s.drained * 1000000 < start link
  due : ∀ record ∈ s.merge.phase.record, record.startTime + env.maxCallTime < s.drained
  distinct : (callers s.merge.past.legs).Nodup
  fresh : s.merge.Fresh env

theorem setStart_kept (stemp clock : Int) (table : List CallLegLink) :
    Kept env start (setStart env stemp table clock) := by
  have width := seconds_nonneg env.settings.readThresholdSecond
  refine ⟨rfl,le_refl _,?_,by simp [setStart,Reading.setStart,Reader.setStart],
    by simp [setStart,Reading.setStart],by simp [setStart,MergeContainer.setStart],
    by simp [setStart,MergeContainer.setStart,callers],?_⟩
  · simp only [setStart,Reading.setStart,Reader.setStart]
    omega
  · simp [Fresh,setStart,MergeContainer.setStart]

theorem merge_due {c next : MergeContainer} {action : Action} {drained : Int}
    (test : ∀ now save record rest, action = .getTime now → c.phase = .walk save → c.rest = record :: rest →
      expired env save now record.startTime = true → record.startTime + env.maxCallTime < drained)
    (stepped : MergeContainer.step env c action = some next) :
    ∀ record ∈ next.phase.record, record.startTime + env.maxCallTime < drained := by
  cases step_cases stepped with
  | pass save now record rest phase next passed =>
    intro other member
    cases List.mem_singleton.mp member
    rw [matched_startTime]
    exact test now save record rest rfl phase next passed
  | _ => simp

theorem step_kept {s next : LinkSide} {turn : LinkTurn} (kept : Kept env start s)
    (shaped : s.merge.Shaped) (whole : s.merge.phase.walking = false → s.merge.rest = [])
    (settled : Settled env s turn) (stepped : s.step env start turn = some next) :
    Kept env start next := by
  obtain ⟨received,clock,ordered,ahead,pending,due,distinct,fresh⟩ := kept
  cases turn with
  | read action =>
    obtain ⟨own,moved,merge,drained⟩ := step_read stepped
    obtain ⟨later,inOrder,beyond,queue⟩ := Reading.step_ahead ordered ahead moved
    obtain ⟨same,enqueued⟩ := queue fun count dequeues => by
      simp [dequeues,ReadAction.own] at own
    refine ⟨?_,?_,inOrder,beyond,?_,?_,?_,?_⟩
    · rw [same,merge,received]
    · omega
    · intro link member
      rw [drained]
      rcases enqueued link member with old | new
      · exact pending link old
      · have : start link = (ReadCallLegLink.source start).start link := rfl
        omega
    · rw [merge,drained]
      exact due
    · rw [merge]
      exact distinct
    · rw [merge]
      exact fresh
  | merge action =>
    obtain ⟨allowed,moved,drained,links⟩ := step_merge stepped
    refine ⟨?_,?_,?_,?_,?_,?_,?_,?_⟩
    · have none : action.links = [] := by
        cases action <;> simp_all [Action.dequeuesLinks,Action.links]
      rw [links,(step_dequeued moved).2,none,List.append_nil]
      exact received
    · rw [links,drained]
      exact clock
    · rw [links]
      exact ordered
    · rw [links]
      exact ahead
    · rw [links,drained]
      exact pending
    · rw [drained]
      refine merge_due ?_ moved
      intro now save record rest read phase next passed
      subst read
      have test := settled
      simp only [Settled,phase,next] at test
      exact test passed
    · rw [(step_dequeued moved).1]
      cases action with
      | dequeueLegs batch => exact settled.1
      | _ => simpa [Action.legs] using distinct
    · refine step_fresh fresh shaped whole ?_ moved
      intro batch dequeues
      subst dequeues
      exact settled.2
  | dequeueLinks count =>
    obtain ⟨moved,links,drained⟩ := step_dequeue stepped
    have due : ∀ record ∈ next.merge.phase.record,record.startTime + env.maxCallTime < next.drained :=
      merge_due (by simp) moved
    refine ⟨?_,?_,?_,?_,?_,due,?_,step_fresh fresh shaped whole (by simp) moved⟩
    · rw [links,(step_dequeued moved).2,← received]
      rfl
    · rw [links,drained]
      dsimp only
      split <;> omega
    · rw [links]
      exact ordered
    · rw [links]
      exact ahead
    · intro link member
      rw [links] at member
      rw [drained]
      split
      next all => simp [s.links.output.dequeueBulk_all count all] at member
      next => exact pending link (List.mem_of_mem_drop member)
    · simpa [(step_dequeued moved).1,Action.legs] using distinct

theorem run_kept {stemp clock : Int} {table : List CallLegLink} {s : LinkSide}
    (run : Run (step env start) (Settled env) (setStart env stemp table clock) s) : Kept env start s :=
  run.invariant (setStart_kept stemp clock table) fun _ _ _ before kept settled stepped =>
    step_kept kept (run_shaped (run_merge before)) (run_rest (run_merge before)) settled stepped

/-- In a run in which calls become due only after the queue was seen empty at a clock
past their call time, a call leaves with all its links. -/
theorem links_complete (env : Env) (start : CallLegLink → Int)
    (dated : ∀ link, env.stamp link.linkStartTime = start link / 1000000) (stemp clock : Int)
    (table : List CallLegLink) (s : LinkSide)
    (run : Run (step env start) (Settled env) (setStart env stemp table clock) s) (save : Int)
    (record : CallRecord) (phase : s.merge.phase = .enqueue save record) :
    LinksComplete env s record := by
  have kept := run_kept run
  have due := kept.due record (by simp [phase])
  have after (link : CallLegLink) (beyond : s.drained * 1000000 < start link) :
      ¬env.stamp link.linkStartTime ≤ record.startTime + env.maxCallTime := by
    rw [dated]
    omega
  -- a link that has not been dequeued starts too late to count
  intro link read own within
  simp only [Reading.read,Fifo.log,List.mem_append] at read
  rcases read with (received | pending) | fetched
  · refine ⟨?_,fun waits => after link (kept.pending link waits) within⟩
    exact dequeued_attached (run_shaped (run_merge run)) (run_conserved (run_merge run)) kept.fresh
      kept.distinct phase (kept.received ▸ received) own
  · exact absurd within (after link (kept.pending link pending))
  · have clock := kept.clock
    have beyond := kept.ahead link fetched
    exact absurd within (after link (by omega))

def brief : Env := {settings := Reading.shortWindows}

def linkStart (link : CallLegLink) : Int := Reading.instant link.linkStartTime

theorem linkStart_dated (link : CallLegLink) :
    brief.stamp link.linkStartTime = linkStart link / 1000000 := by
  have text : linkStart link = brief.stamp link.linkStartTime * 1000000 := rfl
  omega

def linkTable : List CallLegLink :=
  [.row "a" "t" "1970-01-01 00:00:05",.row "m" "u" "1970-01-01 00:01:00"]

def twoWindows : List LinkTurn := (Reading.window 1 ++ Reading.window 0).map .read

theorem links_complete_twoWindows : ∃ (s : LinkSide) (record : CallRecord),
    record.links.length = 1 ∧ LinksComplete brief s record := by
  obtain ⟨s,run,good⟩ := exists_run (step brief linkStart) (Settled brief)
    (setStart brief 0 linkTable 100000000)
    (fun s => s.merge.phase.record.map (·.links.length) == [1])
    (twoWindows ++ [.merge (.dequeueLegs [.row "a" true "1970-01-01 00:00:05",
      .row "m" true "1970-01-01 00:01:00"]),.dequeueLinks 10,.merge .work,.merge .work,.merge .work,
      .merge .work,.merge (.getTime 20)]) (by decide)
  rw [beq_iff_eq] at good
  cases phase : s.merge.phase with
  | enqueue save record =>
    have size : record.links.length = 1 := by simpa [phase] using good
    exact ⟨s,record,size,links_complete brief linkStart linkStart_dated 0 100000000 linkTable s run save
      record phase⟩
  | _ => simp [phase] at good

/-- The same run with the reader's windows read between the link dequeue and the test:
the call leaves, and its link is in the queue. -/
theorem link_left_behind : ¬∀ (env : Env) (start : CallLegLink → Int),
    (∀ link, env.stamp link.linkStartTime = start link / 1000000) →
    ∀ (stemp clock : Int) (table : List CallLegLink) (s : LinkSide),
    Run (step env start) Always (setStart env stemp table clock) s →
    ∀ (save : Int) (record : CallRecord), s.merge.phase = .enqueue save record →
      LinksComplete env s record := by
  intro complete
  obtain ⟨s,run,good⟩ := exists_run (step brief linkStart) Always
    (setStart brief 0 linkTable 100000000)
    (fun s => s.merge.phase.record.map (fun record => (record.orig,record.startTime,record.links.length)) ==
        [("a",5,0)] &&
      s.links.output.pending.map (fun link => (link.uniqueidOrig,brief.stamp link.linkStartTime)) == [("a",5)])
    ([.merge (.dequeueLegs [.row "a" true "1970-01-01 00:00:05",.row "m" true "1970-01-01 00:01:00"]),
      .dequeueLinks 10] ++ twoWindows ++ [.merge .work,.merge .work,.merge .work,.merge (.getTime 20)])
    (by decide)
  simp only [Bool.and_eq_true,beq_iff_eq] at good
  obtain ⟨left,waiting⟩ := good
  obtain ⟨link,pending,same⟩ := List.map_eq_singleton_iff.mp waiting
  obtain ⟨own,stamp⟩ := Prod.mk.inj same
  cases phase : s.merge.phase with
  | enqueue save record =>
    simp only [phase,Phase.record,List.map_cons,List.map_nil,List.cons.injEq,Prod.mk.injEq] at left
    obtain ⟨⟨orig,born,none⟩,_⟩ := left
    have whole := complete brief linkStart linkStart_dated 0 100000000 linkTable s run save record phase
    have attached := (whole link (by simp [Reading.read,Fifo.log,pending]) (own.trans orig.symm)
      (by rw [stamp,born]; decide)).1
    rw [List.length_eq_zero_iff.mp none] at attached
    simp at attached
  | _ => simp [phase] at left

end LinkSide
end Call45Aggr
