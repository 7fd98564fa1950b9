import Call45Aggr.Model
import Call45Aggr.Library.Channel
import Call45Aggr.Library.Run
import Mathlib.Data.List.Sort

/-! `ReadCallLeg::run` and `ReadCallLegLink::run`, which read their table window by
window. The two differ only in the table: in the instant of a row and in the order of
the query. Every `time(NULL)`, every query and every `enqueue` is a step of its own.
What the link reader waits for at the online watchers only delays its `put`. -/
namespace Call45Aggr
open Library

/-- Instants of rows are microseconds, `time_t` values are seconds. -/
structure Source (Row : Type) where
  start : Row → Int
  before : Row → Row → Bool

def ReadCallLeg.source (start : CallLeg → Int) : Source CallLeg where
  start := start
  before row other := decide (row.id ≤ other.id)

def ReadCallLegLink.source (start : CallLegLink → Int) : Source CallLegLink where
  start := start
  before row other := decide (row.id < other.id ∨ row.id = other.id ∧ row.serverId ≤ other.serverId)

namespace Source
variable {Row : Type} (src : Source Row)

def within (after upTo : Int) (row : Row) : Bool :=
  decide (after * 1000000 < src.start row) && decide (src.start row ≤ upTo * 1000000)

def select (table : List Row) (after upTo : Int) : List Row := table.filter (src.within after upTo)

def orderBy (rows : List Row) : List Row :=
  rows.insertionSort (fun row other => src.before row other = true)

theorem within_iff (after upTo : Int) (row : Row) : src.within after upTo row = true ↔
    after * 1000000 < src.start row ∧ src.start row ≤ upTo * 1000000 := by
  simp [within]

theorem mem_select {table : List Row} {after upTo : Int} {row : Row} :
    row ∈ src.select table after upTo ↔
      row ∈ table ∧ after * 1000000 < src.start row ∧ src.start row ≤ upTo * 1000000 := by
  simp [select,within]

theorem orderBy_perm (rows : List Row) : (src.orderBy rows).Perm rows := List.perm_insertionSort _ rows

@[simp] theorem select_self (table : List Row) (time : Int) : src.select table time time = [] := by
  refine List.filter_eq_nil_iff.mpr fun row _ inside => ?_
  have both := (src.within_iff time time row).mp inside
  omega

theorem select_append (table : List Row) {low middle high : Int} (lower : low ≤ middle)
    (upper : middle ≤ high) :
    (src.select table low middle ++ src.select table middle high).Perm (src.select table low high) := by
  induction table with
  | nil => exact .refl _
  | cons row table ih =>
    simp only [select,List.filter_cons] at ih ⊢
    by_cases first : src.within low middle row = true
    · have bounds := (src.within_iff low middle row).mp first
      have whole : src.within low high row = true := (src.within_iff low high row).mpr (by omega)
      have apart : ¬src.within middle high row = true := by
        rw [within_iff]
        omega
      simpa [first,whole,apart] using ih
    · by_cases second : src.within middle high row = true
      · have bounds := (src.within_iff middle high row).mp second
        have whole : src.within low high row = true := (src.within_iff low high row).mpr (by omega)
        simpa [first,second,whole] using List.perm_middle.trans (.cons row ih)
      · have outside : ¬src.within low high row = true := by
          simp only [within_iff] at first second ⊢
          omega
        simpa [first,second,outside] using ih

end Source

inductive ReaderPhase (Row : Type)
  | top
  | ripe
  | asked (now : Int)
  | opened
  | cleared
  | put (rows : List Row)
  | closed

@[simp] def ReaderPhase.rows {Row : Type} : ReaderPhase Row → List Row
  | .put rows => rows
  | _ => []

structure Reader (Row : Type) where
  phase : ReaderPhase Row := .top
  startTime : Int
  stopTime : Int
  paused : Bool := false

def Reader.setStart {Row : Type} (settings : Settings) (stemp : Int) : Reader Row where
  startTime := stemp
  stopTime := stemp + seconds settings.readThresholdSecond

/-- A reader with its table, its output queue and the wall clock in microseconds. -/
structure Reading (Row : Type) where
  reader : Reader Row
  output : Fifo Row := {}
  table : List Row := []
  clock : Int

/-- `found` is the answer of the query that chooses the step size. -/
inductive ReadAction (Row : Type)
  | tick (clock : Int)
  | insert (row : Row)
  | pause (paused : Bool)
  | dequeue (count : Nat)
  | ripen
  | time
  | query
  | clear
  | fetch
  | put
  | close
  | widen (found : Bool)

/-- The pause flag and the dequeue are the merging thread's, all else is not. -/
def ReadAction.own {Row : Type} : ReadAction Row → Bool
  | .pause _ => false
  | .dequeue _ => false
  | _ => true

namespace Reading
variable {Row : Type}

def read (s : Reading Row) : List Row := s.output.log ++ s.reader.phase.rows

def time (s : Reading Row) : Int := s.clock / 1000000

def setStart (settings : Settings) (stemp : Int) (table : List Row) (clock : Int) : Reading Row where
  reader := .setStart settings stemp
  table := table
  clock := clock

def step (src : Source Row) (settings : Settings) (s : Reading Row) : ReadAction Row → Option (Reading Row)
  | .tick clock => if s.clock ≤ clock then some {s with clock} else none
  | .insert row => some {s with table := s.table ++ [row]}
  | .pause paused => some {s with reader := {s.reader with paused}}
  | .dequeue count => some {s with output := s.output.dequeueBulk count}
  | .ripen =>
    match s.reader.phase with
    | .top =>
      if s.reader.stopTime ≠ 0 ∧ s.reader.stopTime ≤ s.time - seconds settings.readThresholdSecond then
        some {s with reader := {s.reader with phase := .ripe}}
      else none
    | _ => none
  | .time =>
    match s.reader.phase with
    | .ripe => some {s with reader := {s.reader with phase := .asked s.time}}
    | _ => none
  | .query =>
    match s.reader.phase with
    | .asked now =>
      if (src.select s.table s.reader.stopTime (now - seconds settings.readWaitingSecond)).isEmpty then
        some {s with reader := {s.reader with phase := .ripe}}
      else some {s with reader := {s.reader with phase := .opened}}
    | _ => none
  | .clear =>
    match s.reader.phase with
    | .opened => if s.reader.paused then none else some {s with reader := {s.reader with phase := .cleared}}
    | _ => none
  | .fetch =>
    match s.reader.phase with
    | .cleared =>
      some {s with reader := {s.reader with
        phase := .put (src.orderBy (src.select s.table s.reader.startTime s.reader.stopTime))}}
    | _ => none
  | .put =>
    match s.reader.phase with
    | .put (row :: rows) =>
      if s.output.pending.length < settings.maxQueueSize.toNat then
        some {s with reader := {s.reader with phase := .put rows},output := s.output.enqueue row}
      else none
    | _ => none
  | .close =>
    match s.reader.phase with
    | .put [] =>
      some {s with reader := {s.reader with phase := .closed,startTime := s.reader.stopTime}}
    | _ => none
  | .widen found =>
    match s.reader.phase with
    | .closed =>
      let width := if found then settings.maxCallTime else settings.readThresholdSecond
      some {s with reader := {s.reader with phase := .top,stopTime := s.reader.stopTime + seconds width}}
    | _ => none

inductive Step (src : Source Row) (settings : Settings) (s : Reading Row) :
    ReadAction Row → Reading Row → Prop
  | tick (clock : Int) (later : s.clock ≤ clock) : Step src settings s (.tick clock) {s with clock}
  | insert (row : Row) : Step src settings s (.insert row) {s with table := s.table ++ [row]}
  | pause (paused : Bool) : Step src settings s (.pause paused) {s with reader := {s.reader with paused}}
  | dequeue (count : Nat) :
      Step src settings s (.dequeue count) {s with output := s.output.dequeueBulk count}
  | ripen (phase : s.reader.phase = .top)
      (passed : s.reader.stopTime ≤ s.time - seconds settings.readThresholdSecond) :
      Step src settings s .ripen {s with reader := {s.reader with phase := .ripe}}
  | time (phase : s.reader.phase = .ripe) :
      Step src settings s .time {s with reader := {s.reader with phase := .asked s.time}}
  | again (now : Int) (phase : s.reader.phase = .asked now) :
      Step src settings s .query {s with reader := {s.reader with phase := .ripe}}
  | found (now : Int) (row : Row) (phase : s.reader.phase = .asked now)
      (member : row ∈ src.select s.table s.reader.stopTime (now - seconds settings.readWaitingSecond)) :
      Step src settings s .query {s with reader := {s.reader with phase := .opened}}
  | clear (phase : s.reader.phase = .opened) (running : s.reader.paused = false) :
      Step src settings s .clear {s with reader := {s.reader with phase := .cleared}}
  | fetch (phase : s.reader.phase = .cleared) : Step src settings s .fetch {s with
      reader := {s.reader with
        phase := .put (src.orderBy (src.select s.table s.reader.startTime s.reader.stopTime))}}
  | put (row : Row) (rows : List Row) (phase : s.reader.phase = .put (row :: rows)) :
      Step src settings s .put
        {s with reader := {s.reader with phase := .put rows},output := s.output.enqueue row}
  | close (phase : s.reader.phase = .put []) : Step src settings s .close
      {s with reader := {s.reader with phase := .closed,startTime := s.reader.stopTime}}
  | widen (found : Bool) (width : Int) (phase : s.reader.phase = .closed) (wider : 0 ≤ width) :
      Step src settings s (.widen found)
        {s with reader := {s.reader with phase := .top,stopTime := s.reader.stopTime + width}}

theorem step_cases {src : Source Row} {settings : Settings} {s next : Reading Row}
    {action : ReadAction Row} (stepped : step src settings s action = some next) :
    Step src settings s action next := by
  cases action with
  | tick clock =>
    simp only [step] at stepped
    split at stepped
    next later =>
      cases Option.some.inj stepped
      exact .tick clock later
    next => contradiction
  | insert row =>
    cases Option.some.inj stepped
    exact .insert row
  | pause paused =>
    cases Option.some.inj stepped
    exact .pause paused
  | dequeue count =>
    cases Option.some.inj stepped
    exact .dequeue count
  | ripen =>
    simp only [step] at stepped
    split at stepped
    next phase =>
      split at stepped
      next passed =>
        cases Option.some.inj stepped
        exact .ripen phase passed.2
      next => contradiction
    next => contradiction
  | time =>
    simp only [step] at stepped
    split at stepped
    next phase =>
      cases Option.some.inj stepped
      exact .time phase
    next => contradiction
  | query =>
    simp only [step] at stepped
    split at stepped
    next now phase =>
      split at stepped
      next =>
        cases Option.some.inj stepped
        exact .again now phase
      next nonempty =>
        cases Option.some.inj stepped
        obtain ⟨row,member⟩ := List.exists_mem_of_ne_nil _ (by simpa using nonempty)
        exact .found now row phase member
    next => contradiction
  | clear =>
    simp only [step] at stepped
    split at stepped
    next phase =>
      split at stepped
      next => contradiction
      next running =>
        cases Option.some.inj stepped
        exact .clear phase (by simpa using running)
    next => contradiction
  | fetch =>
    simp only [step] at stepped
    split at stepped
    next phase =>
      cases Option.some.inj stepped
      exact .fetch phase
    next => contradiction
  | put =>
    simp only [step] at stepped
    split at stepped
    next row rows phase =>
      split at stepped
      next =>
        cases Option.some.inj stepped
        exact .put row rows phase
      next => contradiction
    next => contradiction
  | close =>
    simp only [step] at stepped
    split at stepped
    next phase =>
      cases Option.some.inj stepped
      exact .close phase
    next => contradiction
  | widen found =>
    simp only [step] at stepped
    split at stepped
    next phase =>
      cases Option.some.inj stepped
      exact .widen found _ phase (seconds_nonneg _)
    next => contradiction

end Reading
end Call45Aggr
