import Call45Aggr.Pipeline
import Call45Aggr.Library.Run

/-! The waits for room in the three queues: no queue outgrows its bound, and no wait
lasts, since what has been fetched can always move on. -/
namespace Call45Aggr
open Library

namespace Pipeline
open MergeContainer

variable {env : Env} {legStart : CallLeg → Int} {linkStart : CallLegLink → Int}

structure Bounded (env : Env) (s : Pipeline) : Prop where
  legs : s.legs.output.pending.length ≤ env.maxQueueSize
  links : s.links.output.pending.length ≤ env.maxQueueSize
  output : s.output.pending.length ≤ env.maxQueueSize
  legsIn : s.merge.phase.legsIn.length ≤ env.maxQueueSize
  linksIn : s.merge.phase.linksIn.length ≤ env.maxQueueSize

theorem read_bounded {Row : Type} {src : Source Row} {settings : Settings} {s next : Reading Row}
    {action : ReadAction Row} (bound : s.output.pending.length ≤ settings.maxQueueSize.toNat)
    (stepped : s.step src settings action = some next) :
    next.output.pending.length ≤ settings.maxQueueSize.toNat := by
  cases Reading.step_cases stepped with
  | dequeue count =>
    simp only [Fifo.dequeueBulk,List.length_drop]
    omega
  | put row rows phase =>
    simp only [Reading.step,phase] at stepped
    split at stepped
    next room =>
      simp only [Fifo.enqueue,List.length_append,List.length_singleton]
      omega
    next => contradiction
  | _ => exact bound

theorem step_batches {c next : MergeContainer} {action : Action}
    (legs : c.phase.legsIn.length ≤ env.maxQueueSize) (links : c.phase.linksIn.length ≤ env.maxQueueSize)
    (stepped : c.step env action = some next) :
    next.phase.legsIn.length ≤ env.maxQueueSize ∧ next.phase.linksIn.length ≤ env.maxQueueSize := by
  cases MergeContainer.step_cases stepped with
  | dequeueLegs batch phase bound => exact ⟨bound,Nat.zero_le _⟩
  | dequeueLinks legsIn batch phase bound => exact ⟨by simpa [phase] using legs,bound⟩
  | addLeg leg legsIn linksIn phase =>
    simp only [phase,Phase.legsIn,Phase.linksIn,List.length_cons] at legs links ⊢
    exact ⟨by omega,links⟩
  | addLink link linksIn phase =>
    simp only [phase,Phase.legsIn,Phase.linksIn,List.length_cons] at legs links ⊢
    exact ⟨legs,by omega⟩
  | _ => exact ⟨Nat.zero_le _,Nat.zero_le _⟩

theorem emit_bounded {s : Pipeline} {output : Fifo CallRecord}
    (bound : s.output.pending.length ≤ env.maxQueueSize) (emitted : s.emit env = some output) :
    output.pending.length ≤ env.maxQueueSize := by
  unfold emit at emitted
  split at emitted
  · split at emitted
    next room =>
      cases Option.some.inj emitted
      simp only [Fifo.enqueue,List.length_append,List.length_singleton]
      omega
    next => contradiction
  · cases Option.some.inj emitted
    exact bound

theorem step_bounded {s next : Pipeline} {turn : PipelineTurn} (bounded : Bounded env s)
    (stepped : s.step env legStart linkStart turn = some next) : Bounded env next := by
  obtain ⟨legs,links,output,legsIn,linksIn⟩ := bounded
  cases step_cases stepped with
  | readLegs action reading own moved => exact ⟨read_bounded legs moved,links,output,legsIn,linksIn⟩
  | readLinks action reading own moved => exact ⟨legs,read_bounded links moved,output,legsIn,linksIn⟩
  | dequeueLegs count merge moved =>
    obtain ⟨first,second⟩ := step_batches legsIn linksIn moved
    refine ⟨?_,links,output,first,second⟩
    simp only [Fifo.dequeueBulk,List.length_drop]
    omega
  | dequeueLinks count merge moved =>
    obtain ⟨first,second⟩ := step_batches legsIn linksIn moved
    refine ⟨legs,?_,output,first,second⟩
    simp only [Fifo.dequeueBulk,List.length_drop]
    omega
  | merge action merge output' reads others moved emitted =>
    obtain ⟨first,second⟩ := step_batches legsIn linksIn moved
    exact ⟨legs,links,emit_bounded output emitted,first,second⟩
  | report count bound =>
    refine ⟨legs,links,?_,legsIn,linksIn⟩
    simp only [Fifo.dequeueBulk,List.length_drop]
    omega

/-- In any order of the threads, the three queues and the two batches of the merge hold at
most `max_queue_size` items each. -/
theorem queues_bounded (env : Env) (legStart : CallLeg → Int) (linkStart : CallLegLink → Int) (stemp clock : Int)
    (legTable : List CallLeg) (linkTable : List CallLegLink) (s : Pipeline)
    (run : Run (step env legStart linkStart) Always (setStart env stemp legTable linkTable clock) s) :
    Bounded env s :=
  run.invariant ⟨Nat.zero_le _,Nat.zero_le _,Nat.zero_le _,Nat.zero_le _,Nat.zero_le _⟩
    fun _ _ _ _ bounded _ stepped => step_bounded bounded stepped

theorem queues_bounded_oneWindow : ∃ s : Pipeline, s.output.received.length = 1 ∧ Bounded shortPipe s := by
  obtain ⟨s,run,good⟩ := exists_run (step shortPipe legInstant linkInstant) Always twoTables
    (fun s => s.output.received.length == 1) oneWindow (by decide)
  exact ⟨s,by simpa using good,queues_bounded shortPipe legInstant linkInstant 0 100000000 _ _ s run⟩

/-- The turns that move what has been fetched: every dequeue asks for `max_queue_size`
items. The rounds of the two consumers that find nothing are left out. -/
def Draining (env : Env) (s : Pipeline) : PipelineTurn → Prop
  | .readLegs .put => True
  | .readLinks .put => True
  | .dequeueLegs count => count = env.maxQueueSize
  | .dequeueLinks count => count = env.maxQueueSize ∧
    ¬(s.merge.phase.legsIn = [] ∧ s.links.output.pending = [] ∧ s.legs.output.pending = [])
  | .merge _ => True
  | .report count => count = env.maxQueueSize ∧ s.output.pending ≠ []
  | _ => False

/-- Nothing is on its way: what was fetched lies in the containers or has been reported. -/
structure Drained (s : Pipeline) : Prop where
  legRows : s.legs.reader.phase.rows = []
  linkRows : s.links.reader.phase.rows = []
  legs : s.legs.output.pending = []
  links : s.links.output.pending = []
  output : s.output.pending = []
  batch : s.merge.phase = .poll ∨ s.merge.phase = .polled []

/-- What is still before the merge; a row in the hands of a reader has one way more to go. -/
def ahead (s : Pipeline) : Nat :=
  2 * (s.legs.reader.phase.rows.length + s.links.reader.phase.rows.length) +
    s.legs.output.pending.length + s.links.output.pending.length

/-- The iteration counts down from a filled batch to the next poll. -/
def rank (s : Pipeline) : Nat :=
  match s.merge.phase with
  | .polled (_ :: _) => 7
  | .accept _ _ => 6
  | .walk _ => 5
  | .enqueue _ _ => 5
  | .purge _ _ => 4
  | .polled [] => if s.legs.output.pending = [] then 1 else 3
  | .poll => 2

def left (s : Pipeline) : Nat :=
  match s.merge.phase with
  | .accept legsIn linksIn => legsIn.length + linksIn.length
  | .walk _ => 2 * s.merge.rest.length
  | .enqueue _ _ => 2 * s.merge.rest.length + 1
  | .purge _ cursor => (s.merge.legs.after cursor).length
  | _ => 0

def todo (s : Pipeline) : Nat × Nat × Nat × Nat := (s.ahead,s.rank,s.left,s.output.pending.length)

def Nearer : Nat × Nat × Nat × Nat → Nat × Nat × Nat × Nat → Prop :=
  Prod.Lex (· < ·) (Prod.Lex (· < ·) (Prod.Lex (· < ·) (· < ·)))

theorem nearer_wellFounded : WellFounded Nearer :=
  (Prod.lex Nat.lt_wfRel (Prod.lex Nat.lt_wfRel (Prod.lex Nat.lt_wfRel Nat.lt_wfRel))).wf

theorem nearer_ahead {s next : Pipeline} (fewer : next.ahead < s.ahead) : Nearer next.todo s.todo :=
  .left _ _ fewer

theorem nearer_rank {s next : Pipeline} (ahead : next.ahead = s.ahead) (lower : next.rank < s.rank) :
    Nearer next.todo s.todo := by
  unfold todo Nearer
  rw [ahead]
  exact .right _ (.left _ _ lower)

theorem nearer_left {s next : Pipeline} (ahead : next.ahead = s.ahead) (rank : next.rank = s.rank)
    (fewer : next.left < s.left) : Nearer next.todo s.todo := by
  unfold todo Nearer
  rw [ahead,rank]
  exact .right _ (.right _ (.left _ _ fewer))

theorem put_nearer {Row : Type} {src : Source Row} {settings : Settings} {s next : Reading Row}
    (stepped : s.step src settings .put = some next) :
    next.reader.phase.rows.length + 1 = s.reader.phase.rows.length ∧
      next.output.pending.length = s.output.pending.length + 1 := by
  cases Reading.step_cases stepped with
  | put row rows phase => simp [phase,Fifo.enqueue]

theorem after_erase {m : SortedMap String CallLeg} {cursor : Option String} {key : String} {leg : CallLeg}
    (next : m.next? cursor = some (key,leg)) : ∃ rest, m.after cursor = (key,leg) :: rest ∧
      m.after (some key) = rest ∧ (m.erase key).after (some key) = rest := by
  rw [SortedMap.next?_eq_head?] at next
  obtain ⟨rest,ahead⟩ := List.head?_eq_some_iff.mp next
  have kept : m.after (some key) = rest := SortedMap.after_next ahead
  refine ⟨rest,ahead,kept,?_⟩
  rw [← kept]
  simp only [SortedMap.after,SortedMap.erase,List.filter_filter]
  refine List.filter_congr fun entry _ => ?_
  by_cases beyond : key < entry.1
  · simp [beyond,beyond.ne']
  · simp [beyond]

theorem dequeueLinks_cases {c next : MergeContainer} {batch : List CallLegLink}
    (moved : c.step env (.dequeueLinks batch) = some next) :
    (c.phase = .polled [] ∧ batch = [] ∧ next.phase = .poll) ∨
      ∃ legsIn, c.phase = .polled legsIn ∧ (legsIn = [] → batch ≠ []) ∧ next.phase = .accept legsIn batch := by
  cases MergeContainer.step_cases moved with
  | nothing phase => exact .inl ⟨phase,rfl,rfl⟩
  | dequeueLinks legsIn batch phase bound =>
    refine .inr ⟨legsIn,phase,?_,rfl⟩
    rintro rfl rfl
    simp [MergeContainer.step,phase] at moved

theorem merge_nearer {s next : Pipeline} {action : Action} (others : action.dequeues = false)
    (moved : s.merge.step env action = some next.merge) (same : next.ahead = s.ahead) :
    Nearer next.todo s.todo := by
  obtain ⟨legs,links,merge,output⟩ := next
  dsimp only at moved
  cases MergeContainer.step_cases moved with
  | dequeueLegs | nothing | dequeueLinks => contradiction
  | addLeg leg legsIn linksIn phase =>
    apply nearer_left same
    · simp [rank,phase]
    · simp [left,phase]
  | addLink link linksIn phase =>
    apply nearer_left same
    · simp [rank,phase]
    · simp [left,phase]
  | regulate phase =>
    apply nearer_rank same
    simp [rank,phase]
  | pass save now record rest phase next due =>
    apply nearer_left same
    · simp [rank,phase]
    · simp only [left,phase,next,List.length_cons]
      omega
  | keep save now record rest phase next early =>
    apply nearer_left same
    · simp [rank,phase]
    · simp only [left,phase,next,List.length_cons]
      omega
  | enqueue save record phase =>
    apply nearer_left same
    · simp [rank,phase]
    · simp [left,phase]
  | walked save phase done =>
    apply nearer_rank same
    simp [rank,phase]
  | purgeLeg save now cursor key leg phase next due =>
    obtain ⟨rest,ahead,_,erased⟩ := after_erase next
    apply nearer_left same
    · simp [rank,phase]
    · simp [left,phase,ahead,erased]
  | keepLeg save now cursor key leg phase next early =>
    obtain ⟨rest,ahead,kept,_⟩ := after_erase next
    apply nearer_left same
    · simp [rank,phase]
    · simp [left,phase,ahead,kept]
  | purgeLinks save cursor phase done =>
    apply nearer_rank same
    simp [rank,phase]

theorem descends (room : 0 < env.maxQueueSize) {s next : Pipeline} {turn : PipelineTurn}
    (draining : Draining env s turn) (stepped : s.step env legStart linkStart turn = some next) :
    Nearer next.todo s.todo := by
  cases step_cases stepped with
  | readLegs action legs own moved =>
    cases action with
    | put =>
      obtain ⟨rows,queue⟩ := put_nearer moved
      apply nearer_ahead
      simp only [ahead]
      omega
    | _ => exact draining.elim
  | readLinks action links own moved =>
    cases action with
    | put =>
      obtain ⟨rows,queue⟩ := put_nearer moved
      apply nearer_ahead
      simp only [ahead]
      omega
    | _ => exact draining.elim
  | dequeueLegs count merge moved =>
    obtain rfl : count = env.maxQueueSize := draining
    cases MergeContainer.step_cases moved with
    | dequeueLegs batch phase bound =>
      cases pending : s.legs.output.pending with
      | nil =>
        apply nearer_rank
        · simp [ahead,Fifo.dequeueBulk,pending]
        · simp [rank,phase,Fifo.batch,Fifo.dequeueBulk,pending]
      | cons leg legs =>
        apply nearer_ahead
        simp only [ahead,Fifo.dequeueBulk,pending,List.length_drop,List.length_cons]
        omega
  | dequeueLinks count merge moved =>
    obtain ⟨rfl,busy⟩ := draining
    cases pending : s.links.output.pending with
    | cons link links =>
      apply nearer_ahead
      simp only [ahead,Fifo.dequeueBulk,pending,List.length_drop,List.length_cons]
      omega
    | nil =>
      have same : ahead {s with
          merge
          links := {s.links with output := s.links.output.dequeueBulk env.maxQueueSize}} = s.ahead := by
        simp [ahead,Fifo.dequeueBulk,pending]
      apply nearer_rank same
      rcases dequeueLinks_cases moved with ⟨phase,_,next⟩ | ⟨legsIn,phase,filled,next⟩
      · have waiting : s.legs.output.pending ≠ [] := fun none => busy ⟨by simp [phase],pending,none⟩
        simp [rank,phase,next,waiting]
      · cases legsIn with
        | nil => exact absurd (by simp [Fifo.batch,pending]) (filled rfl)
        | cons leg legsIn => simp [rank,phase,next]
  | merge action merge output reads others moved emitted => exact merge_nearer others moved rfl
  | report count bound =>
    obtain ⟨rfl,waiting⟩ := draining
    refine .right _ (.right _ (.right _ ?_))
    have some : 0 < s.output.pending.length := List.length_pos_iff.mpr waiting
    simp only [Fifo.dequeueBulk,List.length_drop]
    omega

theorem merge_moves {s : Pipeline} (empty : s.output.pending = []) (room : 0 < env.maxQueueSize)
    (busy : s.merge.phase ≠ .poll ∧ ∀ legsIn, s.merge.phase ≠ .polled legsIn) :
    ∃ action next, s.step env legStart linkStart (.merge action) = some next := by
  have works (action : Action) (others : action.dequeues = false)
      (reads : action.reads s.links.reader.startTime = true) (moves : (s.merge.step env action).isSome) :
      ∃ action next, s.step env legStart linkStart (.merge action) = some next := by
    obtain ⟨merge,moved⟩ := Option.isSome_iff_exists.mp moves
    refine ⟨action,?_⟩
    simp only [step,reads,others,moved,Bool.not_false,Bool.and_self,if_true,Option.bind_some]
    unfold emit
    split
    · exact ⟨_,by rw [if_pos (by simpa [empty] using room)]; rfl⟩
    · exact ⟨_,rfl⟩
  cases phase : s.merge.phase with
  | poll => exact absurd phase busy.1
  | polled legsIn => exact absurd phase (busy.2 legsIn)
  | accept legsIn linksIn =>
    apply works .work rfl rfl
    cases legsIn <;> cases linksIn <;> simp [MergeContainer.step,phase]
  | enqueue save record => exact works .work rfl rfl (by simp [MergeContainer.step,phase])
  | walk save =>
    cases next : s.merge.rest with
    | nil => exact works .work rfl rfl (by simp [MergeContainer.step,phase,next])
    | cons record rest =>
      apply works (.getTime s.links.reader.startTime) rfl (by simp [Action.reads])
      simp only [MergeContainer.step,phase,next]
      split <;> rfl
  | purge save cursor =>
    cases next : s.merge.legs.next? cursor with
    | none => exact works .work rfl rfl (by simp [MergeContainer.step,phase,next])
    | some entry =>
      apply works (.getTime s.links.reader.startTime) rfl (by simp [Action.reads])
      simp only [MergeContainer.step,phase,next]
      split <;> rfl

theorem put_moves {Row : Type} (src : Source Row) {settings : Settings} {s : Reading Row}
    (empty : s.output.pending = []) (room : 0 < settings.maxQueueSize.toNat) (rows : s.reader.phase.rows ≠ []) :
    ∃ next, s.step src settings .put = some next := by
  cases phase : s.reader.phase with
  | put rows =>
    cases rows with
    | nil => simp [phase] at rows
    | cons row rows => simp [Reading.step,phase,empty,room]
  | _ => simp [phase] at rows

theorem poll_moves {s : Pipeline} (polls : s.merge.phase = .poll) :
    ∃ next, s.step env legStart linkStart (.dequeueLegs env.maxQueueSize) = some next := by
  apply Option.isSome_iff_exists.mp
  simp [step,MergeContainer.step,polls,Fifo.batch]

theorem polled_moves {s : Pipeline} {legsIn : List CallLeg} (polled : s.merge.phase = .polled legsIn) :
    ∃ next, s.step env legStart linkStart (.dequeueLinks env.maxQueueSize) = some next := by
  apply Option.isSome_iff_exists.mp
  simp only [step,MergeContainer.step,polled,Option.isSome_map]
  rw [if_pos (by simp [Fifo.batch])]
  split <;> rfl

theorem read_moves (room : 0 < env.maxQueueSize) {s : Pipeline} (undone : ¬s.Drained)
    (output : s.output.pending = []) (polled : s.merge.phase = .polled []) (legs : s.legs.output.pending = [])
    (links : s.links.output.pending = []) :
    ∃ turn next, Draining env s turn ∧ s.step env legStart linkStart turn = some next := by
  by_cases legRows : s.legs.reader.phase.rows = []
  · have linkRows : s.links.reader.phase.rows ≠ [] := fun none =>
      undone ⟨legRows,none,legs,links,output,.inr polled⟩
    obtain ⟨next,moved⟩ := put_moves (ReadCallLegLink.source linkStart) links room linkRows
    exact ⟨.readLinks .put,{s with links := next},trivial,by simp [step,ReadAction.own,moved]⟩
  · obtain ⟨next,moved⟩ := put_moves (ReadCallLeg.source legStart) legs room legRows
    exact ⟨.readLegs .put,{s with legs := next},trivial,by simp [step,ReadAction.own,moved]⟩

theorem moves (room : 0 < env.maxQueueSize) (s : Pipeline) (undone : ¬s.Drained) :
    ∃ turn next, Draining env s turn ∧ s.step env legStart linkStart turn = some next := by
  by_cases output : s.output.pending = []
  · by_cases polls : s.merge.phase = .poll
    · obtain ⟨next,stepped⟩ := poll_moves polls
      exact ⟨.dequeueLegs env.maxQueueSize,next,rfl,stepped⟩
    · by_cases polled : ∃ legsIn, s.merge.phase = .polled legsIn
      · obtain ⟨legsIn,phase⟩ := polled
        by_cases idle : legsIn = [] ∧ s.links.output.pending = [] ∧ s.legs.output.pending = []
        · obtain ⟨rfl,links,legs⟩ := idle
          exact read_moves room undone output phase legs links
        · obtain ⟨next,stepped⟩ := polled_moves phase
          exact ⟨.dequeueLinks env.maxQueueSize,next,⟨rfl,by simpa [phase] using idle⟩,stepped⟩
      · obtain ⟨action,next,stepped⟩ := merge_moves output room
          ⟨polls,fun legsIn same => polled ⟨legsIn,same⟩⟩
        exact ⟨.merge action,next,trivial,stepped⟩
  · exact ⟨.report env.maxQueueSize,{s with output := s.output.dequeueBulk env.maxQueueSize},⟨rfl,output⟩,
      by simp [step]⟩

/-- From any state, in any order of the threads, what has been fetched gets to the merge and
what is due there out to the reports: no wait for room, at queues that take at least one row
or at the output, is for ever. What is not due stays in the containers of the merge, and the
watchers that a link waits for before its put are left out. -/
theorem drains (env : Env) (legStart : CallLeg → Int) (linkStart : CallLegLink → Int)
    (room : 0 < env.settings.maxQueueSize) (s : Pipeline) :
    Inevitable (step env legStart linkStart) (Draining env) Drained s :=
  have room : 0 < env.maxQueueSize := room
  inevitable_of_descends nearer_wellFounded todo (moves room)
    (fun _ _ _ draining stepped => descends room draining stepped) s

theorem drains_twoTables : ∃ s t : Pipeline,
    (s.legs.output.pending.length = 2 ∧ s.links.reader.phase.rows.length = 1) ∧ Drained t ∧
    Run (step shortPipe legInstant linkInstant) (Draining shortPipe) s t := by
  obtain ⟨s,_,good⟩ := exists_run (step shortPipe legInstant linkInstant) Always twoTables
    (fun s => s.legs.output.pending.length == 2 && s.links.reader.phase.rows.length == 1)
    ((Reading.window 1 ++ Reading.window 1).map .readLegs ++ (Reading.opening 0).map .readLinks) (by decide)
  simp only [Bool.and_eq_true,beq_iff_eq] at good
  obtain ⟨t,run,drained⟩ := (drains shortPipe legInstant linkInstant (by decide) s).reached
  exact ⟨s,t,good,drained,run⟩

end Pipeline
end Call45Aggr
