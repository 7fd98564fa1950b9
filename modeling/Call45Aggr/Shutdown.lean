import Call45Aggr.OnlineGate
import Call45Aggr.Pipeline

/-! `MergeContainer::onStop` once `app::running` has become false. The merge has left its
loop, so that nobody takes from the queues of the readers or resumes them, and the online
watchers have left theirs, so that their rows stay. Only the conditions of the outer loops
look at the flag; the waits inside do not. -/
namespace Call45Aggr
open Library

/-- `entered` tells of a reader at the top that its loop condition was already true. -/
structure Closing (Row : Type) where
  reading : Reading Row
  entered : Bool
  ended : Bool := false

inductive ClosingAction (Row : Type)
  | condition
  | read (action : ReadAction Row)

namespace Closing
variable {Row : Type}

/-- What the loop of the reader asks beyond the steps that it shares with a running daemon. -/
def allows (held : Row → Bool) (s : Closing Row) : ReadAction Row → Bool
  | .ripen => s.entered
  | .put => !s.reading.reader.phase.rows.head?.any held
  | .pause _ | .dequeue _ => false
  | _ => true

def remains (s : Closing Row) : ReadAction Row → Bool
  | .widen _ => false
  | _ => s.entered

def step (src : Source Row) (settings : Settings) (held : Row → Bool) (s : Closing Row) :
    ClosingAction Row → Option (Closing Row)
  | .condition =>
    match s.reading.reader.phase with
    | .top =>
      if s.entered && s.reading.reader.stopTime != 0 then none else some {s with entered := false,ended := true}
    | _ => none
  | .read action =>
    if s.allows held action then
      (s.reading.step src settings action).map fun reading => {s with
        reading
        entered := s.remains action}
    else none

/-- These rows can still be put. -/
def Room (settings : Settings) (held : Row → Bool) (output : Fifo Row) (rows : List Row) : Prop :=
  (∀ row ∈ rows, held row = false) ∧
    (rows ≠ [] → output.pending.length + rows.length ≤ settings.maxQueueSize.toNat)

/-- The rows of the window being read. -/
def window (src : Source Row) (s : Closing Row) : List Row :=
  src.select s.reading.table s.reading.reader.startTime s.reading.reader.stopTime

/-- No wait inside the loop holds the reader for ever. -/
def CanEnd (src : Source Row) (settings : Settings) (held : Row → Bool) (s : Closing Row) : Prop :=
  match s.reading.reader.phase with
  | .top => s.entered = false ∨ s.reading.reader.stopTime = 0 ∨
    s.reading.reader.paused = false ∧ Room settings held s.reading.output (s.window src)
  | .ripe | .asked _ | .opened =>
    s.reading.reader.paused = false ∧ Room settings held s.reading.output (s.window src)
  | .cleared => Room settings held s.reading.output (s.window src)
  | .put rows => Room settings held s.reading.output rows
  | .closed => True

variable {src : Source Row} {settings : Settings} {held : Row → Bool} {s next : Closing Row}

theorem Room.subset {output : Fifo Row} {rows fewer : List Row} (room : Room settings held output rows)
    (sub : fewer.Sublist rows) : Room settings held output fewer := by
  refine ⟨fun row member => room.1 row (sub.subset member),fun some => ?_⟩
  have bound := room.2 fun none => some (List.sublist_nil.mp (none ▸ sub))
  have shorter := sub.length_le
  omega

theorem Room.perm {output : Fifo Row} {rows others : List Row} (room : Room settings held output rows)
    (same : rows.Perm others) : Room settings held output others := by
  refine ⟨fun row member => room.1 row (same.mem_iff.mpr member),fun some => ?_⟩
  have bound := room.2 fun none => some (List.nil_perm.mp (none ▸ same))
  rwa [same.length_eq] at bound

theorem Room.cons {output : Fifo Row} {row : Row} {rows : List Row} (clear : held row = false)
    (few : output.pending.length < settings.maxQueueSize.toNat)
    (room : Room settings held (output.enqueue row) rows) : Room settings held output (row :: rows) := by
  refine ⟨List.forall_mem_cons.mpr ⟨clear,room.1⟩,fun _ => ?_⟩
  cases rows with
  | nil =>
    rw [List.length_singleton]
    omega
  | cons other rows =>
    have bound := room.2 (List.cons_ne_nil other rows)
    simp only [Fifo.enqueue,List.length_append,List.length_cons] at bound ⊢
    omega

theorem select_insert (src : Source Row) (table : List Row) (row : Row) (low high : Int) :
    (src.select table low high).Sublist (src.select (table ++ [row]) low high) := by
  rw [Source.select,Source.select,List.filter_append]
  exact List.sublist_append_left _ _

/-- What a step comes from can end if what it leads to can. -/
theorem step_canEnd {action : ClosingAction Row} (stepped : s.step src settings held action = some next)
    (can : next.ended = true ∨ CanEnd src settings held next) : s.ended = true ∨ CanEnd src settings held s := by
  cases action with
  | condition =>
    simp only [step] at stepped
    split at stepped
    next phase =>
      split at stepped
      next => contradiction
      next idle =>
        refine .inr ?_
        simp only [CanEnd,phase]
        by_cases entered : s.entered = true
        · refine .inr (.inl ?_)
          simpa [entered] using idle
        · exact .inl (by simpa using entered)
    next => contradiction
  | read action =>
    simp only [step] at stepped
    split at stepped
    next allowed =>
      obtain ⟨reading,moved,rfl⟩ := Option.map_eq_some_iff.mp stepped
      refine can.imp_right fun can => ?_
      cases Reading.step_cases moved with
      | tick clock later => exact can
      | insert row =>
        have grows := select_insert src s.reading.table row s.reading.reader.startTime s.reading.reader.stopTime
        simp only [CanEnd] at can ⊢
        cases phase : s.reading.reader.phase with
        | top =>
          simp only [phase] at can
          exact can.imp_right fun can => can.imp_right fun can => ⟨can.1,can.2.subset grows⟩
        | ripe | asked now | opened =>
          simp only [phase] at can
          exact ⟨can.1,can.2.subset grows⟩
        | cleared =>
          simp only [phase] at can
          exact can.subset grows
        | put rows =>
          simp only [phase] at can
          exact can
        | closed => trivial
      | pause | dequeue => contradiction
      | ripen phase passed =>
        simp only [CanEnd,phase] at can ⊢
        exact .inr (.inr can)
      | time phase | again now phase | found now row phase member =>
        simp only [CanEnd,phase] at can ⊢
        exact can
      | clear phase running =>
        simp only [CanEnd,phase] at can ⊢
        exact ⟨running,can⟩
      | fetch phase =>
        simp only [CanEnd,phase] at can ⊢
        exact can.perm (src.orderBy_perm _)
      | put row rows phase =>
        simp only [Reading.step,phase] at moved
        split at moved
        next few =>
          simp only [CanEnd,phase] at can ⊢
          refine can.cons ?_ few
          simpa [allows,phase] using allowed
        next => contradiction
      | close phase =>
        simp only [CanEnd,phase]
        exact ⟨by simp,fun some => absurd rfl some⟩
      | widen found width phase wider =>
        simp only [CanEnd,phase]
    next => contradiction

/-- The loop of the reader can come to its end. -/
def Ends (src : Source Row) (settings : Settings) (held : Row → Bool) (s : Closing Row) : Prop :=
  ∃ final, Run (step src settings held) Always s final ∧ final.ended = true

theorem Ends.step (action : ClosingAction Row) (stepped : s.step src settings held action = some next)
    (ends : Ends src settings held next) : Ends src settings held s := by
  obtain ⟨final,run,ended⟩ := ends
  exact ⟨final,(Run.step s next action .start trivial stepped).trans run,ended⟩

/-- A step of the reading that the loop does not ask more for. -/
theorem Ends.read (action : ReadAction Row) {reading : Reading Row} (allowed : s.allows held action = true)
    (stays : s.remains action = s.entered) (moved : s.reading.step src settings action = some reading)
    (ends : Ends src settings held {s with reading}) : Ends src settings held s := by
  refine ends.step (.read action) ?_
  rw [Closing.step,if_pos allowed,moved,Option.map_some,stays]

theorem ends_condition (phase : s.reading.reader.phase = .top)
    (idle : s.entered = false ∨ s.reading.reader.stopTime = 0) : Ends src settings held s := by
  have stepped : s.step src settings held .condition = some {s with entered := false,ended := true} := by
    rcases idle with away | zero
    · simp [step,phase,away]
    · simp [step,phase,zero]
  exact Ends.step .condition stepped ⟨_,.start,rfl⟩

theorem ends_closed (phase : s.reading.reader.phase = .closed) : Ends src settings held s := by
  have moved : s.reading.step src settings (.widen false) = some {s.reading with
      reader := {s.reading.reader with
        phase := .top
        stopTime := s.reading.reader.stopTime + seconds settings.readThresholdSecond}} := by
    simp [Reading.step,phase]
  have stepped : s.step src settings held (.read (.widen false)) = some {s with
      reading := {s.reading with reader := {s.reading.reader with
        phase := .top
        stopTime := s.reading.reader.stopTime + seconds settings.readThresholdSecond}}
      entered := false} := by
    simp only [step,allows,if_true,moved,Option.map_some,remains]
  exact Ends.step _ stepped (ends_condition rfl (.inl rfl))

theorem ends_put (rows : List Row) : ∀ s : Closing Row, s.reading.reader.phase = .put rows →
    Room settings held s.reading.output rows → Ends src settings held s := by
  induction rows with
  | nil =>
    intro s phase _
    have moved : s.reading.step src settings .close = some {s.reading with
        reader := {s.reading.reader with phase := .closed,startTime := s.reading.reader.stopTime}} := by
      simp [Reading.step,phase]
    exact Ends.read .close rfl rfl moved (ends_closed rfl)
  | cons row rows ih =>
    intro s phase room
    have bound := room.2 (List.cons_ne_nil row rows)
    rw [List.length_cons] at bound
    have few : s.reading.output.pending.length < settings.maxQueueSize.toNat := by omega
    have moved : s.reading.step src settings .put = some {s.reading with
        reader := {s.reading.reader with phase := .put rows}
        output := s.reading.output.enqueue row} := by
      simp [Reading.step,phase,few]
    refine Ends.read .put ?_ rfl moved (ih _ rfl ⟨fun other member => ?_,fun _ => ?_⟩)
    · simp [allows,phase,room.1 row List.mem_cons_self]
    · exact room.1 other (List.mem_cons_of_mem row member)
    · simp only [Fifo.enqueue,List.length_append,List.length_singleton]
      omega

theorem ends_cleared (phase : s.reading.reader.phase = .cleared)
    (room : Room settings held s.reading.output (s.window src)) : Ends src settings held s := by
  have moved : s.reading.step src settings .fetch = some {s.reading with
      reader := {s.reading.reader with phase := .put (src.orderBy (s.window src))}} := by
    simp [Reading.step,phase,window]
  exact Ends.read .fetch rfl rfl moved (ends_put _ _ rfl (room.perm (src.orderBy_perm _).symm))

theorem ends_opened (phase : s.reading.reader.phase = .opened) (running : s.reading.reader.paused = false)
    (room : Room settings held s.reading.output (s.window src)) : Ends src settings held s := by
  have moved : s.reading.step src settings .clear = some {s.reading with
      reader := {s.reading.reader with phase := .cleared}} := by
    simp [Reading.step,phase,running]
  exact Ends.read .clear rfl rfl moved (ends_cleared rfl room)

/-- A row beyond the window and a clock that has passed it by the waiting time. -/
def supplied (settings : Settings) (start : Int) (s : Closing Row) (row : Row) : Closing Row :=
  {s with reading := {s.reading with
    table := s.reading.table ++ [row]
    clock := max s.reading.clock ((start / 1000000 + 1 + seconds settings.readWaitingSecond) * 1000000)}}

theorem window_supplied (settings : Settings) {row : Row} (beyond : s.reading.reader.stopTime * 1000000 < src.start row) :
    (s.supplied settings (src.start row) row).window src = s.window src := by
  have outside : src.within s.reading.reader.startTime s.reading.reader.stopTime row = false := by
    rw [← Bool.not_eq_true,src.within_iff]
    omega
  simp [window,supplied,Source.select,outside]

theorem ends_supplied (start : Int) (row : Row) (ends : Ends src settings held (s.supplied settings start row)) :
    Ends src settings held s := by
  have inserted : s.reading.step src settings (.insert row) = some {s.reading with
      table := s.reading.table ++ [row]} := rfl
  refine Ends.read (.insert row) rfl rfl inserted ?_
  exact Ends.read (.tick _) rfl rfl (if_pos (le_max_left _ _)) ends

theorem supplied_found {row : Row} (beyond : s.reading.reader.stopTime * 1000000 < src.start row) :
    row ∈ src.select (s.supplied settings (src.start row) row).reading.table s.reading.reader.stopTime
      ((s.supplied settings (src.start row) row).reading.time - seconds settings.readWaitingSecond) := by
  refine src.mem_select.mpr ⟨List.mem_append_right _ (List.mem_singleton_self row),beyond,?_⟩
  have reached := le_max_right s.reading.clock
    ((src.start row / 1000000 + 1 + seconds settings.readWaitingSecond) * 1000000)
  simp only [supplied,Reading.time]
  omega

theorem ends_found (phase : s.reading.reader.phase = .ripe) (running : s.reading.reader.paused = false)
    (room : Room settings held s.reading.output (s.window src)) {row : Row}
    (found : row ∈ src.select s.reading.table s.reading.reader.stopTime
      (s.reading.time - seconds settings.readWaitingSecond)) : Ends src settings held s := by
  have asked : s.reading.step src settings .time = some {s.reading with
      reader := {s.reading.reader with phase := .asked s.reading.time}} := by
    simp [Reading.step,phase]
  refine Ends.read .time rfl rfl asked ?_
  have filled : (src.select s.reading.table s.reading.reader.stopTime
      (s.reading.time - seconds settings.readWaitingSecond)).isEmpty = false :=
    List.isEmpty_eq_false_iff_exists_mem.mpr ⟨row,found⟩
  have opened : Reading.step src settings {s.reading with
      reader := {s.reading.reader with phase := .asked s.reading.time}} .query = some {s.reading with
      reader := {s.reading.reader with phase := .opened}} := by
    simp only [Reading.step,filled,Bool.false_eq_true,if_false]
  exact Ends.read .query rfl rfl opened (ends_opened rfl running room)

theorem ends_ripe (phase : s.reading.reader.phase = .ripe) (running : s.reading.reader.paused = false)
    (room : Room settings held s.reading.output (s.window src)) {row : Row}
    (beyond : s.reading.reader.stopTime * 1000000 < src.start row) : Ends src settings held s := by
  apply ends_supplied (src.start row) row
  rw [← window_supplied settings beyond] at room
  exact ends_found phase running room (supplied_found beyond)

theorem ends_asked {now : Int} (phase : s.reading.reader.phase = .asked now)
    (running : s.reading.reader.paused = false) (room : Room settings held s.reading.output (s.window src))
    {row : Row} (beyond : s.reading.reader.stopTime * 1000000 < src.start row) : Ends src settings held s := by
  by_cases none : (src.select s.reading.table s.reading.reader.stopTime
      (now - seconds settings.readWaitingSecond)).isEmpty = true
  · have again : s.reading.step src settings .query = some {s.reading with
        reader := {s.reading.reader with phase := .ripe}} := by
      simp only [Reading.step,phase,none,if_true]
    exact Ends.read .query rfl rfl again (ends_ripe rfl running room beyond)
  · have opened : s.reading.step src settings .query = some {s.reading with
        reader := {s.reading.reader with phase := .opened}} := by
      simp only [Reading.step,phase,none]
      rfl
    exact Ends.read .query rfl rfl opened (ends_opened rfl running room)

theorem ends_top (phase : s.reading.reader.phase = .top) (running : s.reading.reader.paused = false)
    (room : Room settings held s.reading.output (s.window src)) {row : Row}
    (beyond : s.reading.reader.stopTime * 1000000 < src.start row) : Ends src settings held s := by
  by_cases idle : s.entered = false ∨ s.reading.reader.stopTime = 0
  · exact ends_condition phase idle
  · obtain ⟨entered,nonzero⟩ := not_or.mp idle
    let clock := max s.reading.clock ((s.reading.reader.stopTime + seconds settings.readThresholdSecond) * 1000000)
    have late : s.reading.reader.stopTime ≤ clock / 1000000 - seconds settings.readThresholdSecond := by
      have reached := le_max_right s.reading.clock
        ((s.reading.reader.stopTime + seconds settings.readThresholdSecond) * 1000000)
      simp only [clock]
      omega
    have ripened : Reading.step src settings {s.reading with clock} .ripen = some {s.reading with
        clock
        reader := {s.reading.reader with phase := .ripe}} := by
      simp only [Reading.step,phase]
      exact if_pos ⟨nonzero,late⟩
    refine Ends.read (.tick clock) rfl rfl (if_pos (le_max_left _ _)) ?_
    exact Ends.read .ripen (by simpa [allows] using entered) rfl ripened (ends_ripe rfl running room beyond)

theorem run_canEnd {final : Closing Row} (run : Run (step src settings held) Always s final)
    (can : final.ended = true ∨ CanEnd src settings held final) : s.ended = true ∨ CanEnd src settings held s := by
  induction run with
  | start => exact can
  | step state next action _ _ stepped ih => exact ih (step_canEnd stepped can)

/-- Exactly when a reader can still come out of its loop, given that a row follows its window. -/
theorem ends_iff (later : ∃ row, s.reading.reader.stopTime * 1000000 < src.start row) :
    Ends src settings held s ↔ s.ended = true ∨ CanEnd src settings held s := by
  constructor
  · intro ends
    obtain ⟨final,run,ended⟩ := ends
    exact run_canEnd run (.inl ended)
  · intro can
    obtain ⟨row,beyond⟩ := later
    rcases can with ended | can
    · exact ⟨s,.start,ended⟩
    · cases phase : s.reading.reader.phase with
      | top =>
        simp only [CanEnd,phase] at can
        rcases can with away | zero | ⟨running,room⟩
        · exact ends_condition phase (.inl away)
        · exact ends_condition phase (.inr zero)
        · exact ends_top phase running room beyond
      | ripe =>
        simp only [CanEnd,phase] at can
        exact ends_ripe phase can.1 can.2 beyond
      | asked now =>
        simp only [CanEnd,phase] at can
        exact ends_asked phase can.1 can.2 beyond
      | opened =>
        simp only [CanEnd,phase] at can
        exact ends_opened phase can.1 can.2
      | cleared =>
        simp only [CanEnd,phase] at can
        exact ends_cleared phase can
      | put rows =>
        simp only [CanEnd,phase] at can
        exact ends_put rows s phase can
      | closed => exact ends_closed phase

end Closing

/-- A watcher that is not ready, or has a row of the call, keeps the link waiting. -/
def waits (watchers : List OnlineWatcher) (link : CallLegLink) : Bool :=
  watchers.any fun watcher =>
    !link.uniqueidOrig.isEmpty && (!watcher.ready || watcher.checkUniqueIdOrig link.uniqueidOrig) ||
      !link.uniqueidTerm.isEmpty && (!watcher.ready || watcher.checkUniqueIdTerm link.uniqueidTerm)

/-- Which `stop` of `MergeContainer::onStop` has been called and has not returned. -/
inductive StopStage
  | links
  | legs
  | returned
  deriving DecidableEq

structure Shutdown where
  watchers : List OnlineWatcher
  links : Closing CallLegLink
  legs : Closing CallLeg
  stage : StopStage := .links

inductive ShutdownAction
  | links (action : ClosingAction CallLegLink)
  | legs (action : ClosingAction CallLeg)
  | joined

namespace Shutdown

def step (settings : Settings) (legStart : CallLeg → Int) (linkStart : CallLegLink → Int) (s : Shutdown) :
    ShutdownAction → Option Shutdown
  | .links action =>
    (s.links.step (ReadCallLegLink.source linkStart) settings (waits s.watchers) action).map fun links => {s with links}
  | .legs action =>
    (s.legs.step (ReadCallLeg.source legStart) settings (fun _ => false) action).map fun legs => {s with legs}
  | .joined =>
    match s.stage with
    | .links => if s.links.ended then some {s with stage := .legs} else none
    | .legs => if s.legs.ended then some {s with stage := .returned} else none
    | .returned => none

variable {settings : Settings} {legStart : CallLeg → Int} {linkStart : CallLegLink → Int} {s next : Shutdown}

inductive Step (settings : Settings) (legStart : CallLeg → Int) (linkStart : CallLegLink → Int) (s : Shutdown) :
    ShutdownAction → Shutdown → Prop
  | links (action : ClosingAction CallLegLink) (links : Closing CallLegLink)
      (moved : s.links.step (ReadCallLegLink.source linkStart) settings (waits s.watchers) action = some links) :
      Step settings legStart linkStart s (.links action) {s with links}
  | legs (action : ClosingAction CallLeg) (legs : Closing CallLeg)
      (moved : s.legs.step (ReadCallLeg.source legStart) settings (fun _ => false) action = some legs) :
      Step settings legStart linkStart s (.legs action) {s with legs}
  | linksJoined (stage : s.stage = .links) (ended : s.links.ended = true) :
      Step settings legStart linkStart s .joined {s with stage := .legs}
  | legsJoined (stage : s.stage = .legs) (ended : s.legs.ended = true) :
      Step settings legStart linkStart s .joined {s with stage := .returned}

theorem step_cases {action : ShutdownAction} (stepped : s.step settings legStart linkStart action = some next) :
    Step settings legStart linkStart s action next := by
  cases action with
  | links action =>
    obtain ⟨links,moved,rfl⟩ := Option.map_eq_some_iff.mp stepped
    exact .links action links moved
  | legs action =>
    obtain ⟨legs,moved,rfl⟩ := Option.map_eq_some_iff.mp stepped
    exact .legs action legs moved
  | joined =>
    simp only [step] at stepped
    split at stepped
    next stage =>
      split at stepped
      next ended =>
        cases Option.some.inj stepped
        exact .linksJoined stage ended
      next => contradiction
    next stage =>
      split at stepped
      next ended =>
        cases Option.some.inj stepped
        exact .legsJoined stage ended
      next => contradiction
    next => contradiction

theorem ended_stays {Row : Type} {src : Source Row} {held : Row → Bool} {c after : Closing Row}
    {action : ClosingAction Row} (stepped : c.step src settings held action = some after)
    (ended : c.ended = true) : after.ended = true := by
  cases action with
  | condition =>
    simp only [Closing.step] at stepped
    split at stepped
    next =>
      split at stepped
      next => contradiction
      next =>
        cases Option.some.inj stepped
        rfl
    next => contradiction
  | read action =>
    simp only [Closing.step] at stepped
    split at stepped
    next =>
      obtain ⟨reading,_,rfl⟩ := Option.map_eq_some_iff.mp stepped
      exact ended
    next => contradiction

/-- A stage is left only when its reader has ended. -/
structure Passed (s : Shutdown) : Prop where
  links : s.stage ≠ .links → s.links.ended = true
  legs : s.stage = .returned → s.legs.ended = true

theorem step_passed {action : ShutdownAction} (passed : Passed s)
    (stepped : s.step settings legStart linkStart action = some next) : Passed next := by
  obtain ⟨links,legs⟩ := passed
  cases step_cases stepped with
  | links action after moved => exact ⟨fun later => ended_stays moved (links later),legs⟩
  | legs action after moved => exact ⟨links,fun later => ended_stays moved (legs later)⟩
  | linksJoined stage ended => exact ⟨fun _ => ended,fun later => by contradiction⟩
  | legsJoined stage ended => exact ⟨fun _ => links (by simp [stage]),fun _ => ended⟩

def LinksCan (settings : Settings) (linkStart : CallLegLink → Int) (s : Shutdown) : Prop :=
  s.links.ended = true ∨ s.links.CanEnd (ReadCallLegLink.source linkStart) settings (waits s.watchers)

def LegsCan (settings : Settings) (legStart : CallLeg → Int) (s : Shutdown) : Prop :=
  s.legs.ended = true ∨ s.legs.CanEnd (ReadCallLeg.source legStart) settings (fun _ => false)

theorem step_can {action : ShutdownAction} (stepped : s.step settings legStart linkStart action = some next) :
    (next.LinksCan settings linkStart → s.LinksCan settings linkStart) ∧
      (next.LegsCan settings legStart → s.LegsCan settings legStart) := by
  cases step_cases stepped with
  | links action links moved => exact ⟨Closing.step_canEnd moved,id⟩
  | legs action legs moved => exact ⟨id,Closing.step_canEnd moved⟩
  | linksJoined stage ended | legsJoined stage ended => exact ⟨id,id⟩

theorem run_can {final : Shutdown} (run : Run (step settings legStart linkStart) Always s final) :
    (final.LinksCan settings linkStart → s.LinksCan settings linkStart) ∧
      (final.LegsCan settings legStart → s.LegsCan settings legStart) := by
  induction run with
  | start => exact ⟨id,id⟩
  | step state next action _ _ stepped ih =>
    obtain ⟨links,legs⟩ := step_can stepped
    exact ⟨fun can => ih.1 (links can),fun can => ih.2 (legs can)⟩

theorem run_links {links : Closing CallLegLink} (run : Run
      (Closing.step (ReadCallLegLink.source linkStart) settings (waits s.watchers)) Always s.links links) :
    Run (step settings legStart linkStart) Always s {s with links} := by
  induction run with
  | start => exact .start
  | step state next action _ _ stepped ih =>
    exact .step {s with links := state} _ (.links action) ih trivial (by simp only [step,stepped,Option.map_some])

theorem run_legs {legs : Closing CallLeg} (run : Run
      (Closing.step (ReadCallLeg.source legStart) settings (fun _ => false)) Always s.legs legs) :
    Run (step settings legStart linkStart) Always s {s with legs} := by
  induction run with
  | start => exact .start
  | step state next action _ _ stepped ih =>
    exact .step {s with legs := state} _ (.legs action) ih trivial (by simp only [step,stepped,Option.map_some])

/-- The merge left its loop while the leg reader was ahead and paused. -/
def leftPaused : Shutdown where
  watchers := []
  links := {reading := {reader := {startTime := 0,stopTime := 10},clock := 0},entered := false}
  legs := {
    reading := {reader := {phase := .opened,startTime := 0,stopTime := 10,paused := true},clock := 0}
    entered := true}

end Shutdown
end Call45Aggr
