import Call45Aggr.MergeConservation
import Call45Aggr.MergeCutoff
import Call45Aggr.ExactlyOnce
import Call45Aggr.Library.Walk

/-! The four threads between the tables and the reports: the two readers, the merge and
`MergeService::run`, with the three bounded queues that join them. -/
namespace Call45Aggr
open Library

structure Pipeline where
  legs : Reading CallLeg
  links : Reading CallLegLink
  merge : MergeContainer
  output : Fifo CallRecord := {}

inductive PipelineTurn
  | readLegs (action : ReadAction CallLeg)
  | readLinks (action : ReadAction CallLegLink)
  | dequeueLegs (count : Nat)
  | dequeueLinks (count : Nat)
  | merge (action : Action)
  | report (count : Nat)

def Action.dequeues : Action → Bool
  | .dequeueLegs _ => true
  | .dequeueLinks _ => true
  | _ => false

theorem Action.dequeues_none {action : Action} (others : action.dequeues = false) :
    action.legs = [] ∧ action.links = [] := by
  cases action with
  | dequeueLegs | dequeueLinks => contradiction
  | getTime | work => exact ⟨rfl,rfl⟩

namespace Pipeline
open MergeContainer

variable (env : Env) (legStart : CallLeg → Int) (linkStart : CallLegLink → Int)

/-- `queueOutput_` after a step of the merge: a due record waits for room. -/
def emit (s : Pipeline) : Option (Fifo CallRecord) :=
  match s.merge.phase with
  | .enqueue _ record =>
    if s.output.pending.length < env.maxQueueSize then some (s.output.enqueue record) else none
  | _ => some s.output

def step (s : Pipeline) : PipelineTurn → Option Pipeline
  | .readLegs action =>
    if action.own then
      (s.legs.step (ReadCallLeg.source legStart) env.settings action).map fun legs => {s with legs}
    else none
  | .readLinks action =>
    if action.own then
      (s.links.step (ReadCallLegLink.source linkStart) env.settings action).map fun links => {s with links}
    else none
  | .dequeueLegs count =>
    (s.merge.step env (.dequeueLegs (s.legs.output.batch count))).map fun merge => {s with
      merge
      legs := {s.legs with output := s.legs.output.dequeueBulk count}}
  | .dequeueLinks count =>
    (s.merge.step env (.dequeueLinks (s.links.output.batch count))).map fun merge => {s with
      merge
      links := {s.links with output := s.links.output.dequeueBulk count}}
  | .merge action =>
    if action.reads s.links.reader.startTime && !action.dequeues then
      (s.merge.step env action).bind fun merge => (s.emit env).map fun output => {
        merge
        output
        legs := {s.legs with reader := {s.legs.reader with paused := merge.legPaused}}
        links := {s.links with reader := {s.links.reader with paused := merge.linkPaused}}}
    else none
  | .report count =>
    if count ≤ env.maxQueueSize then some {s with output := s.output.dequeueBulk count} else none

/-- The step function read as its possible moves. -/
inductive Step (s : Pipeline) : PipelineTurn → Pipeline → Prop
  | readLegs (action : ReadAction CallLeg) (legs : Reading CallLeg) (own : action.own = true)
      (moved : s.legs.step (ReadCallLeg.source legStart) env.settings action = some legs) :
      Step s (.readLegs action) {s with legs}
  | readLinks (action : ReadAction CallLegLink) (links : Reading CallLegLink) (own : action.own = true)
      (moved : s.links.step (ReadCallLegLink.source linkStart) env.settings action = some links) :
      Step s (.readLinks action) {s with links}
  | dequeueLegs (count : Nat) (merge : MergeContainer)
      (moved : s.merge.step env (.dequeueLegs (s.legs.output.batch count)) = some merge) :
      Step s (.dequeueLegs count) {s with
        merge
        legs := {s.legs with output := s.legs.output.dequeueBulk count}}
  | dequeueLinks (count : Nat) (merge : MergeContainer)
      (moved : s.merge.step env (.dequeueLinks (s.links.output.batch count)) = some merge) :
      Step s (.dequeueLinks count) {s with
        merge
        links := {s.links with output := s.links.output.dequeueBulk count}}
  | merge (action : Action) (merge : MergeContainer) (output : Fifo CallRecord)
      (reads : action.reads s.links.reader.startTime = true) (others : action.dequeues = false)
      (moved : s.merge.step env action = some merge) (emitted : s.emit env = some output) :
      Step s (.merge action) {
        merge
        output
        legs := {s.legs with reader := {s.legs.reader with paused := merge.legPaused}}
        links := {s.links with reader := {s.links.reader with paused := merge.linkPaused}}}
  | report (count : Nat) (bound : count ≤ env.maxQueueSize) :
      Step s (.report count) {s with output := s.output.dequeueBulk count}

def setStart (stemp : Int) (legTable : List CallLeg) (linkTable : List CallLegLink) (clock : Int) : Pipeline where
  legs := .setStart env.settings stemp legTable clock
  links := .setStart env.settings stemp linkTable clock
  merge := .setStart stemp

/-- Rows become visible in time for the reader of their table. -/
def Timely (s : Pipeline) : PipelineTurn → Prop
  | .readLegs action => s.legs.Timely (ReadCallLeg.source legStart) env.settings action
  | .readLinks action => s.links.Timely (ReadCallLegLink.source linkStart) env.settings action
  | _ => True

instance (s : Pipeline) (turn : PipelineTurn) : Decidable (Timely env legStart linkStart s turn) := by
  unfold Timely
  split <;> infer_instance

variable {env legStart linkStart}

theorem step_cases {s next : Pipeline} {turn : PipelineTurn}
    (stepped : s.step env legStart linkStart turn = some next) : Step env legStart linkStart s turn next := by
  cases turn with
  | readLegs action =>
    simp only [step] at stepped
    split at stepped
    next own =>
      obtain ⟨legs,moved,rfl⟩ := Option.map_eq_some_iff.mp stepped
      exact .readLegs action legs own moved
    next => contradiction
  | readLinks action =>
    simp only [step] at stepped
    split at stepped
    next own =>
      obtain ⟨links,moved,rfl⟩ := Option.map_eq_some_iff.mp stepped
      exact .readLinks action links own moved
    next => contradiction
  | dequeueLegs count =>
    obtain ⟨merge,moved,rfl⟩ := Option.map_eq_some_iff.mp stepped
    exact .dequeueLegs count merge moved
  | dequeueLinks count =>
    obtain ⟨merge,moved,rfl⟩ := Option.map_eq_some_iff.mp stepped
    exact .dequeueLinks count merge moved
  | merge action =>
    simp only [step] at stepped
    split at stepped
    next allowed =>
      simp only [Bool.and_eq_true,Bool.not_eq_true'] at allowed
      obtain ⟨merge,moved,rest⟩ := Option.bind_eq_some_iff.mp stepped
      obtain ⟨output,emitted,rfl⟩ := Option.map_eq_some_iff.mp rest
      exact .merge action merge output allowed.1 allowed.2 moved emitted
    next => contradiction
  | report count =>
    simp only [step] at stepped
    split at stepped
    next bound =>
      cases Option.some.inj stepped
      exact .report count bound
    next => contradiction

theorem run_merge {stemp clock : Int} {legTable : List CallLeg} {linkTable : List CallLegLink}
    {allowed : Pipeline → PipelineTurn → Prop} {s : Pipeline}
    (run : Run (step env legStart linkStart) allowed (setStart env stemp legTable linkTable clock) s) :
    Run (MergeContainer.step env) Always (MergeContainer.setStart stemp) s.merge := by
  refine run.seen Pipeline.merge fun state next turn _ stepped => ?_
  cases step_cases stepped with
  | readLegs | readLinks | report => exact .inl rfl
  | dequeueLegs count merge moved => exact .inr ⟨_,trivial,moved⟩
  | dequeueLinks count merge moved => exact .inr ⟨_,trivial,moved⟩
  | merge action merge output reads others moved => exact .inr ⟨action,trivial,moved⟩

/-- What one thread took is what the next one put. -/
structure Joined (env : Env) (legStart : CallLeg → Int) (linkStart : CallLegLink → Int) (stemp : Int)
    (s : Pipeline) : Prop where
  legsTiled : s.legs.Tiled (ReadCallLeg.source legStart) env.settings stemp
  linksTiled : s.links.Tiled (ReadCallLegLink.source linkStart) env.settings stemp
  legs : s.legs.output.received = s.merge.past.legs
  links : s.links.output.received = s.merge.past.links
  output : s.output.log = s.merge.output

theorem read_received {Row : Type} {src : Source Row} {settings : Settings} {s next : Reading Row}
    {action : ReadAction Row} (own : action.own = true) (stepped : s.step src settings action = some next) :
    next.output.received = s.output.received := by
  cases Reading.step_cases stepped with
  | pause | dequeue => simp [ReadAction.own] at own
  | _ => rfl

theorem dequeue_tiled {Row : Type} {src : Source Row} {settings : Settings} {stemp : Int} {s : Reading Row}
    (tiled : s.Tiled src settings stemp) (count : Nat) :
    Reading.Tiled src settings stemp {s with output := s.output.dequeueBulk count} := by
  have dequeued : s.step src settings (.dequeue count) = some {s with output := s.output.dequeueBulk count} := rfl
  exact Reading.step_tiled tiled (by simp [Reading.Timely]) dequeued

theorem pause_tiled {Row : Type} {src : Source Row} {settings : Settings} {stemp : Int} {s : Reading Row}
    (tiled : s.Tiled src settings stemp) (paused : Bool) :
    Reading.Tiled src settings stemp {s with reader := {s.reader with paused}} := by
  have set : s.step src settings (.pause paused) = some {s with reader := {s.reader with paused}} := rfl
  exact Reading.step_tiled tiled (by simp [Reading.Timely]) set

theorem step_emit {s : Pipeline} {action : Action} {merge : MergeContainer} {output : Fifo CallRecord}
    (others : action.dequeues = false) (moved : s.merge.step env action = some merge)
    (emitted : s.emit env = some output) (same : s.output.log = s.merge.output) :
    output.log = merge.output := by
  cases MergeContainer.step_cases moved with
  | dequeueLegs | nothing | dequeueLinks => contradiction
  | enqueue save record phase =>
    simp only [emit,phase] at emitted
    split at emitted
    next =>
      cases Option.some.inj emitted
      rw [Fifo.log_enqueue,same]
    next => contradiction
  | addLeg leg legsIn linksIn phase =>
    simp only [emit,phase,Option.some.injEq] at emitted
    rw [← emitted,same]
    exact (s.merge.addLeg_output env leg).symm
  | regulate phase =>
    simp only [emit,phase,Option.some.injEq] at emitted
    rw [← emitted,same]
    exact (s.merge.regulate_output env).symm
  | addLink _ _ phase
  | pass _ _ _ _ phase
  | keep _ _ _ _ phase
  | walked _ phase
  | purgeLeg _ _ _ _ _ phase
  | keepLeg _ _ _ _ _ phase
  | purgeLinks _ _ phase =>
    simp only [emit,phase,Option.some.injEq] at emitted
    rw [← emitted]
    exact same

theorem dequeue_output {c next : MergeContainer} {action : Action} (taken : action.dequeues = true)
    (moved : c.step env action = some next) : next.output = c.output := by
  cases MergeContainer.step_cases moved with
  | dequeueLegs | nothing | dequeueLinks => rfl
  | _ => contradiction

theorem step_joined {stemp : Int} {s next : Pipeline} {turn : PipelineTurn}
    (joined : Joined env legStart linkStart stemp s) (timely : Timely env legStart linkStart s turn)
    (stepped : s.step env legStart linkStart turn = some next) : Joined env legStart linkStart stemp next := by
  obtain ⟨legsTiled,linksTiled,legs,links,output⟩ := joined
  cases step_cases stepped with
  | readLegs action reading own moved =>
    exact ⟨Reading.step_tiled legsTiled timely moved,linksTiled,(read_received own moved).trans legs,links,output⟩
  | readLinks action reading own moved =>
    exact ⟨legsTiled,Reading.step_tiled linksTiled timely moved,legs,(read_received own moved).trans links,output⟩
  | dequeueLegs count merge moved =>
    obtain ⟨taken,kept⟩ := step_dequeued moved
    refine ⟨dequeue_tiled legsTiled count,linksTiled,?_,?_,output.trans (dequeue_output rfl moved).symm⟩
    · rw [taken,← legs]
      rfl
    · rw [kept,links]
      exact (List.append_nil _).symm
  | dequeueLinks count merge moved =>
    obtain ⟨kept,taken⟩ := step_dequeued moved
    refine ⟨legsTiled,dequeue_tiled linksTiled count,?_,?_,output.trans (dequeue_output rfl moved).symm⟩
    · rw [kept,legs]
      exact (List.append_nil _).symm
    · rw [taken,← links]
      rfl
  | merge action merge output' reads others moved emitted =>
    obtain ⟨keptLegs,keptLinks⟩ := step_dequeued moved
    obtain ⟨noLegs,noLinks⟩ := action.dequeues_none others
    refine ⟨pause_tiled legsTiled _,pause_tiled linksTiled _,?_,?_,step_emit others moved emitted output⟩
    · rw [keptLegs,noLegs,List.append_nil]
      exact legs
    · rw [keptLinks,noLinks,List.append_nil]
      exact links
  | report count bound =>
    refine ⟨legsTiled,linksTiled,legs,links,?_⟩
    rw [Fifo.log_dequeueBulk]
    exact output

theorem run_joined {stemp clock : Int} {legTable : List CallLeg} {linkTable : List CallLegLink} {s : Pipeline}
    (run : Run (step env legStart linkStart) (Timely env legStart linkStart)
      (setStart env stemp legTable linkTable clock) s) : Joined env legStart linkStart stemp s :=
  run.invariant ⟨Reading.setStart_tiled _ _ _ _ _,Reading.setStart_tiled _ _ _ _ _,rfl,rfl,rfl⟩
    fun _ _ _ _ joined timely stepped => step_joined joined timely stepped

/-- The rows of every window up to `startTime_`, and those of the window being put. -/
def fetched {Row : Type} (src : Source Row) (stemp : Int) (s : Reading Row) : List Row :=
  src.select s.table stemp s.reader.startTime ++
    match s.reader.phase with
    | .put _ => src.select s.table s.reader.startTime s.reader.stopTime
    | _ => []

theorem read_fetched {Row : Type} {src : Source Row} {settings : Settings} {stemp : Int} {s : Reading Row}
    (tiled : s.Tiled src settings stemp) : s.read.Perm (fetched src stemp s) := by
  obtain ⟨current,log,window,none⟩ := tiled.logged
  unfold Reading.read fetched
  split
  next rows phase =>
    rw [phase]
    refine (log.append_right rows).trans ?_
    rw [List.append_assoc]
    exact (window rows phase).append_left _
  next apart =>
    have idle : s.reader.phase.rows = [] := by
      cases phase : s.reader.phase with
      | put rows => exact absurd phase (apart rows)
      | _ => rfl
    rw [idle,List.append_nil]
    rwa [none apart] at log

/-- The hands of the reader, the queue, the batch, the containers of the merge, the records there,
at the output and reported, and the purges. -/
def linkPlaces (s : Pipeline) : List CallLegLink :=
  s.links.reader.phase.rows ++
    s.links.output.pending ++ s.merge.phase.linksIn ++ s.merge.links.values.flatMap Bucket.toList ++
    s.merge.held.flatMap (·.links) ++ s.output.pending.flatMap (·.links) ++
    s.output.received.flatMap (·.links) ++ s.merge.past.purgedLinks

def legPlaces (s : Pipeline) : List CallLeg :=
  s.legs.reader.phase.rows ++ s.legs.output.pending ++ s.merge.phase.legsIn ++ s.merge.legs.values ++
    s.merge.held.flatMap (·.legs.values) ++ s.output.pending.flatMap (·.legs.values) ++
    s.output.received.flatMap (·.legs.values) ++ s.merge.past.purgedLegs ++
    s.merge.past.replaced.map Prod.fst

def calls (env : Env) (s : Pipeline) : List (String × Int) :=
  ((s.legs.reader.phase.rows ++ s.legs.output.pending ++ s.merge.phase.legsIn).filter (·.orig)).map env.birth ++
    s.merge.held.map CallRecord.birth ++ s.output.pending.map CallRecord.birth ++
    s.output.received.map CallRecord.birth

theorem Joined.linkPlaces_perm {stemp : Int} {s : Pipeline} (joined : Joined env legStart linkStart stemp s)
    (conserved : s.merge.Conserved env) : s.linkPlaces.Perm s.links.read := by
  classical
  refine List.perm_iff_count.mpr fun item => ?_
  have merged := conserved.links.count_eq item
  simp only [MergeContainer.linkPlaces,buckets,recordLinks,records,← joined.output,← joined.links,Fifo.log,
    List.flatMap_append,List.count_append] at merged
  simp only [linkPlaces,Reading.read,Fifo.log,List.count_append]
  omega

theorem Joined.legPlaces_perm {stemp : Int} {s : Pipeline} (joined : Joined env legStart linkStart stemp s)
    (conserved : s.merge.Conserved env) : s.legPlaces.Perm s.legs.read := by
  classical
  refine List.perm_iff_count.mpr fun item => ?_
  have merged := conserved.legs.count_eq item
  simp only [MergeContainer.legPlaces,recordLegs,records,← joined.output,← joined.legs,Fifo.log,
    List.flatMap_append,List.count_append] at merged
  simp only [legPlaces,Reading.read,Fifo.log,List.count_append]
  omega

theorem Joined.calls_perm {stemp : Int} {s : Pipeline} (joined : Joined env legStart linkStart stemp s)
    (conserved : s.merge.Conserved env) :
    (s.calls env).Perm ((s.legs.read.filter (·.orig)).map env.birth) := by
  refine List.perm_iff_count.mpr fun item => ?_
  have merged := conserved.births.count_eq item
  simp only [MergeContainer.births,records,← joined.output,← joined.legs,Fifo.log,List.map_append,
    List.count_append] at merged
  simp only [calls,Reading.read,Fifo.log,List.filter_append,List.map_append,List.count_append]
  omega

/-- From the tables to the reports, in any order of the four threads: every leg and every
link that was fetched is in one place, and every originating leg of them is one call, as long as
rows become visible in time. -/
theorem rows_accounted (env : Env) (legStart : CallLeg → Int) (linkStart : CallLegLink → Int) (stemp clock : Int)
    (legTable : List CallLeg) (linkTable : List CallLegLink) (s : Pipeline)
    (run : Run (step env legStart linkStart) (Timely env legStart linkStart)
      (setStart env stemp legTable linkTable clock) s) :
    s.legPlaces.Perm (fetched (ReadCallLeg.source legStart) stemp s.legs) ∧
      s.linkPlaces.Perm (fetched (ReadCallLegLink.source linkStart) stemp s.links) ∧
      (s.calls env).Perm (((fetched (ReadCallLeg.source legStart) stemp s.legs).filter (·.orig)).map env.birth) := by
  have joined := run_joined run
  have conserved := run_conserved (run_merge run)
  have legs := read_fetched joined.legsTiled
  exact ⟨(joined.legPlaces_perm conserved).trans legs,
    (joined.linkPlaces_perm conserved).trans (read_fetched joined.linksTiled),
    (joined.calls_perm conserved).trans ((legs.filter _).map _)⟩

def shortPipe : Env := {settings := Reading.shortWindows}

def legInstant (leg : CallLeg) : Int := Reading.instant leg.startTime

def linkInstant (link : CallLegLink) : Int := Reading.instant link.linkStartTime

def twoTables : Pipeline := setStart shortPipe 0
  [.row "a" true "1970-01-01 00:00:05",.row "m" true "1970-01-01 00:00:18",.row "z" true "1970-01-01 00:01:00"]
  [.row "a" "t" "1970-01-01 00:00:06",.row "z" "u" "1970-01-01 00:01:00"] 100000000

/-- One window of each table through the queues, and a call that leaves for the reports. -/
def oneWindow : List PipelineTurn :=
  (Reading.window 1 ++ Reading.opening 1).map .readLegs ++ (Reading.window 1 ++ Reading.window 0).map .readLinks ++
    [.dequeueLegs 10,.dequeueLinks 10,.merge .work,.merge .work,.merge .work,.merge .work,
      .merge (.getTime 20),.merge .work,.report 10]

theorem rows_accounted_oneWindow : ∃ s : Pipeline, s.output.received.length = 1 ∧
    s.legPlaces.Perm (fetched (ReadCallLeg.source legInstant) 0 s.legs) := by
  obtain ⟨s,run,good⟩ := exists_run (step shortPipe legInstant linkInstant)
    (Timely shortPipe legInstant linkInstant) twoTables (fun s => s.output.received.length == 1) oneWindow (by decide)
  exact ⟨s,beq_iff_eq.mp good,(rows_accounted shortPipe legInstant linkInstant 0 100000000 _ _ s run).1⟩

end Pipeline
end Call45Aggr
