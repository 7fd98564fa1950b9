import Call45Aggr.Model
import Call45Aggr.Library.Run
import Call45Aggr.Library.Ledger

/-! `MergeOnline::OnlineWatcher::run` against the table `call_leg_link_online`: whether
the rows it keeps are those of the table. -/
namespace Call45Aggr
open Library

/-- `none` stands for the write past the end of a text of at most ten characters. -/
def formatDateTime (date : String) : Option String :=
  if 10 < date.length then some (String.ofList ((date.toList.take 22).set 10 ' ')) else none

/-- The channels `monitor.call_link_online.*`. -/
inductive OnlineEvent
  | insert
  | update
  | delete
  deriving DecidableEq

structure Notification where
  event : OnlineEvent
  link : CallLegLinkOnline

def CallLegLinkOnline.pair (row : CallLegLinkOnline) : String × String := (row.uniqueidOrig,row.uniqueidTerm)

def CallLegLinkOnline.matches (row other : CallLegLinkOnline) : Bool :=
  decide (other.uniqueidOrig = row.uniqueidOrig ∧ other.uniqueidTerm = row.uniqueidTerm)

def updateFirst (row : CallLegLinkOnline) : List CallLegLinkOnline → List CallLegLinkOnline
  | [] => []
  | it :: data =>
    if row.matches it then
      {it with
        channameOrig := row.channameOrig
        channameTerm := row.channameTerm
        linkStartTime := row.linkStartTime} :: data
    else it :: updateFirst row data

def Notification.apply (notify : Notification) (data : List CallLegLinkOnline) :
    Option (List CallLegLinkOnline) :=
  match formatDateTime notify.link.linkStartTime with
  | none => none
  | some time =>
    let row := {notify.link with linkStartTime := time}
    match notify.event with
    | .insert => some (data ++ [row])
    | .update => some (updateFirst row data)
    | .delete => some (data.eraseP row.matches)

/-- The columns `run` takes from the result of the select. -/
def CallLegLinkOnline.selected (row : CallLegLinkOnline) : CallLegLinkOnline :=
  {(default : CallLegLinkOnline) with
    uniqueidOrig := row.uniqueidOrig
    uniqueidTerm := row.uniqueidTerm
    linkStartTime := row.linkStartTime}

/-- A database session: it is sent every notification committed while it listens. -/
structure Session where
  listening : Bool := false
  pending : List Notification := []

inductive WatchPhase
  | top
  | begun
  | selected (res : List CallLegLinkOnline)
  | filled
  | watch

/-- The table, the sessions of the pool, and the watcher. -/
structure Watching where
  table : List CallLegLinkOnline
  sessions : Nat → Session := fun _ => {}
  current : Nat := 0
  phase : WatchPhase := .top
  data : List CallLegLinkOnline := []
  ready : Bool := false

inductive TableChange
  | insert (row : CallLegLinkOnline)
  | update (index : Nat) (row : CallLegLinkOnline)
  | delete (index : Nat)

def TableChange.apply (table : List CallLegLinkOnline) :
    TableChange → Option (List CallLegLinkOnline × Notification)
  | .insert row => some (table ++ [row],⟨.insert,row⟩)
  | .update index row => if index < table.length then some (table.set index row,⟨.update,row⟩) else none
  | .delete index =>
    match table[index]? with
    | some row => some (table.eraseIdx index,⟨.delete,row⟩)
    | none => none

def Session.notify (notify : Notification) (session : Session) : Session :=
  if session.listening then {session with pending := session.pending ++ [notify]} else session

theorem Session.notify_of_listening {notify : Notification} {session : Session}
    (listens : session.listening = true) :
    session.notify notify = {session with pending := session.pending ++ [notify]} :=
  if_pos listens

theorem Session.notify_of_deaf {notify : Notification} {session : Session}
    (deaf : ¬session.listening = true) : session.notify notify = session :=
  if_neg deaf

inductive WatchAction
  | commit (change : TableChange)
  | connect (session : Nat)
  | close (session : Nat)
  | select
  | fill
  | listen
  | deliver
  | reload

def Notification.change (notify : Notification) : Change (String × String) :=
  match notify.event with
  | .insert => .insert notify.link.pair
  | .update => .keep
  | .delete => .remove notify.link.pair

theorem matches_iff (row other : CallLegLinkOnline) : row.matches other = true ↔ other.pair = row.pair := by
  simp [CallLegLinkOnline.matches,CallLegLinkOnline.pair]

theorem updateFirst_pairs (row : CallLegLinkOnline) (data : List CallLegLinkOnline) :
    (updateFirst row data).map (·.pair) = data.map (·.pair) := by
  induction data with
  | nil => rfl
  | cons it data ih =>
    unfold updateFirst
    split
    · rfl
    · simp [ih]

theorem eraseP_pairs (row : CallLegLinkOnline) (data : List CallLegLinkOnline) :
    (data.eraseP row.matches).map (·.pair) = (data.map (·.pair)).erase row.pair := by
  induction data with
  | nil => rfl
  | cons it data ih =>
    by_cases same : it.pair = row.pair
    · simp [(matches_iff row it).mpr same,same]
    · have differs : row.matches it = false := by
        rw [← Bool.not_eq_true,matches_iff]
        exact same
      simp [differs,same,ih]

theorem Notification.apply_pairs {notify : Notification} {data after : List CallLegLinkOnline}
    (applied : notify.apply data = some after) :
    after.map (·.pair) = notify.change.apply (data.map (·.pair)) := by
  unfold Notification.apply at applied
  split at applied
  next => contradiction
  next time _ =>
    cases event : notify.event with
    | insert =>
      rw [event] at applied
      cases Option.some.inj applied
      simp [Notification.change,Change.apply,event,CallLegLinkOnline.pair]
    | update =>
      rw [event] at applied
      cases Option.some.inj applied
      simp [Notification.change,Change.apply,event,updateFirst_pairs]
    | delete =>
      rw [event] at applied
      cases Option.some.inj applied
      simp only [Notification.change,Change.apply,event]
      exact eraseP_pairs _ data

/-- An update leaves the pair of its row alone. -/
def TableChange.KeepsPair (table : List CallLegLinkOnline) : TableChange → Prop
  | .update index row => table[index]?.map (·.pair) = some row.pair
  | _ => True

instance (table : List CallLegLinkOnline) (change : TableChange) : Decidable (change.KeepsPair table) := by
  unfold TableChange.KeepsPair
  split <;> infer_instance

theorem TableChange.apply_pairs {change : TableChange} {table after : List CallLegLinkOnline}
    {notify : Notification} (applied : change.apply table = some (after,notify))
    (keeps : change.KeepsPair table) :
    (after.map (·.pair)).Perm (notify.change.apply (table.map (·.pair))) := by
  cases change with
  | insert row =>
    obtain ⟨rfl,rfl⟩ := Prod.mk.inj (Option.some.inj applied)
    simp [Notification.change,Change.apply]
  | update index row =>
    simp only [TableChange.apply] at applied
    split at applied
    next inside =>
      obtain ⟨rfl,rfl⟩ := Prod.mk.inj (Option.some.inj applied)
      have same : (table.map (·.pair))[index]? = some row.pair := by simpa [KeepsPair] using keeps
      obtain ⟨bound,equal⟩ := List.getElem?_eq_some_iff.mp same
      rw [List.map_set,← equal,List.set_getElem_self]
      exact .refl _
    next => contradiction
  | delete index =>
    simp only [TableChange.apply] at applied
    split at applied
    next row found =>
      obtain ⟨rfl,rfl⟩ := Prod.mk.inj (Option.some.inj applied)
      obtain ⟨inside,rfl⟩ := List.getElem?_eq_some_iff.mp found
      have split := (List.getElem_cons_eraseIdx_perm inside).map (·.pair)
      have erased := split.erase (table[index]).pair
      simpa [Notification.change,Change.apply] using erased
    next => contradiction

def TableChange.isUpdate : TableChange → Bool
  | .update _ _ => true
  | _ => false

theorem TableChange.keep_of_update {change : TableChange} {table after : List CallLegLinkOnline}
    {notify : Notification} (applied : change.apply table = some (after,notify))
    (update : change.isUpdate = true) : notify.change = .keep := by
  cases change with
  | insert row => simp [isUpdate] at update
  | update index row =>
    simp only [TableChange.apply] at applied
    split at applied
    next =>
      obtain ⟨_,rfl⟩ := Prod.mk.inj (Option.some.inj applied)
      rfl
    next => contradiction
  | delete index => simp [isUpdate] at update

namespace Watching

def session (s : Watching) : Session := s.sessions s.current

def setSession (s : Watching) (id : Nat) (session : Session) : Watching :=
  {s with sessions := fun other => if other = id then session else s.sessions other}

/-- `connect` is the `BEGIN` on a connection of the pool, `listen` the `COMMIT` with
which the three `LISTEN` take effect. A connection in use is not closed. -/
def step (s : Watching) : WatchAction → Option Watching
  | .commit change =>
    match change.apply s.table with
    | some (table,notify) => some {s with table,sessions := fun id => (s.sessions id).notify notify}
    | none => none
  | .connect id =>
    match s.phase with
    | .top => some {s with phase := .begun,current := id}
    | _ => none
  | .close id =>
    match s.phase with
    | .top => some (s.setSession id {})
    | _ => if id = s.current then none else some (s.setSession id {})
  | .select =>
    match s.phase with
    | .begun => some {s with phase := .selected s.table}
    | _ => none
  | .fill =>
    match s.phase with
    | .selected res => some {s with phase := .filled,data := res.map (·.selected),ready := true}
    | _ => none
  | .listen =>
    match s.phase with
    | .filled => some {s.setSession s.current {s.session with listening := true} with phase := .watch}
    | _ => none
  | .deliver =>
    match s.phase,s.session.pending with
    | .watch,notify :: pending =>
      (notify.apply s.data).map fun data => {s.setSession s.current {s.session with pending} with data}
    | _,_ => none
  | .reload =>
    match s.phase with
    | .watch => some {s with phase := .top}
    | _ => none

def CaughtUp (s : Watching) : Bool :=
  match s.phase with
  | .watch => s.session.pending.isEmpty
  | _ => false

def Mirrors (s : Watching) : Prop := (s.data.map (·.pair)).Perm (s.table.map (·.pair))

/-- The rows that stand for the table, once they are selected. -/
def view (s : Watching) : Option (List (String × String)) :=
  match s.phase with
  | .selected res => some (res.map (·.pair))
  | .filled => some (s.data.map (·.pair))
  | .watch => some (s.data.map (·.pair))
  | _ => none

/-- No insert or delete falls between the select and a `LISTEN` that is not in effect
yet, no update moves a row to another pair, and the notifications from before a select do
nothing to the rows it returns. -/
def Gapless (s : Watching) : WatchAction → Prop
  | .commit change => s.view.isSome = true →
    (s.session.listening = true ∨ change.isUpdate = true) ∧ change.KeepsPair s.table
  | .select => (Change.replay (s.session.pending.map Notification.change) (s.table.map (·.pair))).Perm
    (s.table.map (·.pair))
  | _ => True

instance (s : Watching) (action : WatchAction) : Decidable (Gapless s action) := by
  unfold Gapless
  split <;> infer_instance

/-- What is pending leads from the rows to the table. -/
structure Tracked (s : Watching) : Prop where
  listening : s.phase = .watch → s.session.listening = true
  view : ∀ rows, s.view = some rows →
    (Change.replay (s.session.pending.map Notification.change) rows).Perm (s.table.map (·.pair))

theorem step_tracked {s next : Watching} {action : WatchAction} (tracked : s.Tracked)
    (gapless : s.Gapless action) (stepped : s.step action = some next) : next.Tracked := by
  obtain ⟨listening,tracks⟩ := tracked
  cases action with
  | commit change =>
    simp only [step] at stepped
    split at stepped
    next table notify applied =>
      cases Option.some.inj stepped
      have session : Watching.session {s with table,sessions := fun id => (s.sessions id).notify notify} =
          s.session.notify notify := rfl
      refine ⟨?_,?_⟩
      · intro phase
        have before := listening phase
        rw [session,Session.notify_of_listening before]
        exact before
      · intro rows shown
        have seen : s.view = some rows := shown
        obtain ⟨heard,keeps⟩ := gapless (by simp [seen])
        have moved := change.apply_pairs applied keeps
        by_cases listens : s.session.listening = true
        · -- the change is both in the table and among the pending
          have after := (Change.apply_perm (tracks rows seen) notify.change).trans moved.symm
          rw [session,Session.notify_of_listening listens]
          simpa using after
        · rw [change.keep_of_update applied (heard.resolve_left listens)] at moved
          rw [session,Session.notify_of_deaf listens]
          exact (tracks rows seen).trans moved.symm
    next => contradiction
  | connect id =>
    simp only [step] at stepped
    split at stepped
    next =>
      cases Option.some.inj stepped
      exact ⟨by simp,by simp [view]⟩
    next => contradiction
  | close id =>
    simp only [step] at stepped
    split at stepped
    next phase =>
      cases Option.some.inj stepped
      exact ⟨by simp [setSession,phase],by simp [setSession,view,phase]⟩
    next =>
      split at stepped
      next => contradiction
      next other =>
        cases Option.some.inj stepped
        have session : (s.setSession id {}).session = s.session := by
          simp [Watching.session,setSession,Ne.symm other]
        refine ⟨?_,?_⟩
        · rw [session]
          exact listening
        · rw [session]
          exact tracks
  | select =>
    simp only [step] at stepped
    split at stepped
    next =>
      cases Option.some.inj stepped
      refine ⟨by simp,?_⟩
      intro rows shown
      cases Option.some.inj shown
      exact gapless
    next => contradiction
  | fill =>
    simp only [step] at stepped
    split at stepped
    next res phase =>
      cases Option.some.inj stepped
      refine ⟨by simp,?_⟩
      intro rows shown
      cases Option.some.inj shown
      have pairs : (res.map (·.selected)).map (·.pair) = res.map (·.pair) := by
        simp [CallLegLinkOnline.selected,CallLegLinkOnline.pair]
      rw [pairs]
      exact tracks _ (by simp [view,phase])
    next => contradiction
  | listen =>
    simp only [step] at stepped
    split at stepped
    next phase =>
      cases Option.some.inj stepped
      refine ⟨fun _ => by simp [Watching.session,setSession],?_⟩
      intro rows shown
      cases Option.some.inj shown
      simpa [Watching.session,setSession] using tracks _ (by simp [view,phase])
    next => contradiction
  | deliver =>
    simp only [step] at stepped
    split at stepped
    next notify pending phase waiting =>
      obtain ⟨data,applied,rfl⟩ := Option.map_eq_some_iff.mp stepped
      refine ⟨fun _ => by simpa [Watching.session,setSession] using listening phase,?_⟩
      intro rows shown
      have before := tracks (s.data.map (·.pair)) (by simp [view,phase])
      rw [waiting,List.map_cons,Change.replay_cons,← notify.apply_pairs applied] at before
      have same : data.map (·.pair) = rows := by simpa [view,setSession,phase] using shown
      rw [same] at before
      simpa [Watching.session,setSession] using before
    next => contradiction
  | reload =>
    simp only [step] at stepped
    split at stepped
    next =>
      cases Option.some.inj stepped
      exact ⟨by simp,by simp [view]⟩
    next => contradiction

theorem run_tracked {table : List CallLegLinkOnline} {s : Watching}
    (run : Run step Gapless {table} s) : s.Tracked :=
  run.invariant ⟨by simp,by simp [view]⟩ fun _ _ _ _ tracked gapless stepped =>
    step_tracked tracked gapless stepped

/-- In a run without gap, the watcher's rows are those of the table whenever it has
processed all it was sent. -/
theorem online_mirrors (table : List CallLegLinkOnline) (s : Watching)
    (run : Run step Gapless {table} s) (caughtUp : s.CaughtUp = true) : s.Mirrors := by
  have tracked := run_tracked run
  cases phase : s.phase with
  | watch =>
    have none : s.session.pending = [] := by simpa [CaughtUp,phase] using caughtUp
    have rows := tracked.view (s.data.map (·.pair)) (by simp [view,phase])
    rw [none] at rows
    exact rows
  | _ => simp [CaughtUp,phase] at caughtUp

def onlineRow (orig term : String) : CallLegLinkOnline :=
  {(default : CallLegLinkOnline) with
    uniqueidOrig := orig
    uniqueidTerm := term
    linkStartTime := "2024-02-29T12:00:00.25+03:00"}

theorem online_mirrors_oneInsert : ∃ s : Watching,
    (s.data.length = 2 ∧ s.data.map (·.linkStartTime) = ["2024-02-29T12:00:00.25+03:00",
      "2024-02-29 12:00:00.25"]) ∧ s.Mirrors := by
  obtain ⟨s,run,good⟩ := exists_run step Gapless {table := [onlineRow "a" "t"]}
    (fun s => s.data.length == 2 && s.data.map (·.linkStartTime) == ["2024-02-29T12:00:00.25+03:00",
      "2024-02-29 12:00:00.25"] && s.CaughtUp)
    [.connect 0,.select,.fill,.listen,.commit (.insert (onlineRow "b" "u")),.deliver] (by decide)
  simp only [Bool.and_eq_true,beq_iff_eq] at good
  exact ⟨s,good.1,online_mirrors [onlineRow "a" "t"] s run good.2⟩

/-- A row inserted after the select, before the session listens. -/
theorem online_misses_insert : ¬∀ (table : List CallLegLinkOnline) (s : Watching),
    Run step Always {table} s → s.CaughtUp = true → s.Mirrors := by
  intro mirrors
  obtain ⟨s,run,good⟩ := exists_run step Always {table := []}
    (fun s => s.data.isEmpty && s.table.length == 1 && s.CaughtUp)
    [.connect 0,.select,.fill,.commit (.insert (onlineRow "b" "u")),.listen] (by decide)
  simp only [Bool.and_eq_true,beq_iff_eq,List.isEmpty_iff] at good
  obtain ⟨⟨none,one⟩,caughtUp⟩ := good
  have same := (mirrors [] s run caughtUp).length_eq
  simp [none,one] at same

end Watching
end Call45Aggr
