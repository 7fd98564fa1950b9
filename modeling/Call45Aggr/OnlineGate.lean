import Call45Aggr.OnlineWatcher
import Call45Aggr.Model
import Call45Aggr.Library.Channel

/-! The part of `ReadCallLegLink::getSQLData` between two rows: a link waits until no
watcher has its orig, then until no watcher has its term, then for room in the queue.
Watchers change their rows at any moment in between. -/
namespace Call45Aggr
open Library

inductive Column
  | orig
  | term

def Column.ofRow (row : CallLegLinkOnline) : Column → String
  | .orig => row.uniqueidOrig
  | .term => row.uniqueidTerm

def Column.ofLink (link : CallLegLink) : Column → String
  | .orig => link.uniqueidOrig
  | .term => link.uniqueidTerm

structure OnlineWatcher where
  ready : Bool := false
  data : List CallLegLinkOnline := []

/-- The search both checks of a watcher make, once it is ready. -/
def OnlineWatcher.checkUniqueId (column : Column) (watcher : OnlineWatcher) (uniqueId : String) : Bool :=
  !uniqueId.isEmpty &&
    watcher.data.any fun row => !(column.ofRow row).isEmpty && column.ofRow row == uniqueId

def OnlineWatcher.checkUniqueIdOrig : OnlineWatcher → String → Bool := checkUniqueId .orig

def OnlineWatcher.checkUniqueIdTerm : OnlineWatcher → String → Bool := checkUniqueId .term

def Column.check : Column → OnlineWatcher → String → Bool
  | .orig => OnlineWatcher.checkUniqueIdOrig
  | .term => OnlineWatcher.checkUniqueIdTerm

/-- `scan` holds the place of `MergeOnline::checkUniqueIdOrig` or `checkUniqueIdTerm` in
the map of watchers. -/
inductive GatePhase
  | next
  | scan (column : Column) (link : CallLegLink) (place : Nat)
  | room (link : CallLegLink)

structure OnlineGate where
  watchers : List OnlineWatcher
  phase : GatePhase := .next
  output : Fifo CallLegLink := {}

inductive GateAction
  | take (link : CallLegLink)
  | scan
  | enqueue
  | dequeue (count : Nat)
  | fill (id : Nat) (rows : List CallLegLinkOnline)
  | deliver (id : Nat) (notify : Notification)

def Column.passed (link : CallLegLink) : Column → GatePhase
  | .orig => .scan .term link 0
  | .term => .room link

theorem Column.ofRow_eq {row other : CallLegLinkOnline} (column : Column) (same : row.pair = other.pair) :
    column.ofRow row = column.ofRow other := by
  obtain ⟨orig,term⟩ := Prod.mk.inj same
  cases column with
  | orig => exact orig
  | term => exact term

theorem Notification.apply_mem {notify : Notification} {data after : List CallLegLinkOnline}
    (applied : notify.apply data = some after) {row : CallLegLinkOnline} (member : row ∈ after) :
    (∃ old ∈ data, old.pair = row.pair) ∨ (notify.event = .insert ∧ notify.link.pair = row.pair) := by
  have pair : row.pair ∈ after.map (·.pair) := List.mem_map_of_mem member
  rw [notify.apply_pairs applied] at pair
  unfold Notification.change at pair
  cases event : notify.event with
  | insert =>
    simp only [event,Change.apply,List.mem_append,List.mem_singleton] at pair
    rcases pair with old | new
    · exact .inl (List.mem_map.mp old)
    · exact .inr ⟨rfl,new.symm⟩
  | update =>
    simp only [event,Change.apply] at pair
    exact .inl (List.mem_map.mp pair)
  | delete =>
    simp only [event,Change.apply] at pair
    exact .inl (List.mem_map.mp (List.mem_of_mem_erase pair))

namespace OnlineGate

def step (settings : Settings) (s : OnlineGate) : GateAction → Option OnlineGate
  | .take link =>
    match s.phase with
    | .next => some {s with phase := .scan .orig link 0}
    | _ => none
  | .scan =>
    match s.phase with
    | .scan column link place =>
      if (column.ofLink link).isEmpty then some {s with phase := column.passed link}
      else
        match s.watchers[place]? with
        | none => some {s with phase := column.passed link}
        | some watcher =>
          if !watcher.ready then none
          else if column.check watcher (column.ofLink link) then
            some {s with phase := .scan column link 0}
          else some {s with phase := .scan column link (place + 1)}
    | _ => none
  | .enqueue =>
    match s.phase with
    | .room link =>
      if s.output.pending.length < settings.maxQueueSize.toNat then
        some {s with phase := .next,output := s.output.enqueue link}
      else none
    | _ => none
  | .dequeue count => some {s with output := s.output.dequeueBulk count}
  | .fill id rows =>
    if id < s.watchers.length then some {s with watchers := s.watchers.set id ⟨true,rows⟩} else none
  | .deliver id notify =>
    match s.watchers[id]? with
    | some watcher => (notify.apply watcher.data).map fun data =>
        {s with watchers := s.watchers.set id {watcher with data}}
    | none => none

/-- No watcher has a row with the orig or with the term of the link. -/
def Offline (watchers : List OnlineWatcher) (link : CallLegLink) : Prop :=
  ∀ watcher ∈ watchers, ∀ row ∈ watcher.data,
    (link.uniqueidOrig ≠ "" → row.uniqueidOrig ≠ link.uniqueidOrig) ∧
    (link.uniqueidTerm ≠ "" → row.uniqueidTerm ≠ link.uniqueidTerm)

def Clash (column : Column) (link : CallLegLink) (row : CallLegLinkOnline) : Prop :=
  column.ofLink link ≠ "" ∧ column.ofRow row = column.ofLink link

instance (column : Column) (link : CallLegLink) (row : CallLegLinkOnline) :
    Decidable (Clash column link row) :=
  inferInstanceAs (Decidable (_ ∧ _))

@[simp] def behind : GatePhase → Column → Nat → Bool
  | .scan .orig _ place,.orig,id => decide (id < place)
  | .scan .term _ _,.orig,_ => true
  | .scan .term _ place,.term,id => decide (id < place)
  | .room _,_,_ => true
  | _,_,_ => false

@[simp] def inHand : GatePhase → Option CallLegLink
  | .scan _ link _ => some link
  | .room link => some link
  | .next => none

def brought : GateAction → Option (Nat × List CallLegLinkOnline)
  | .fill id rows => some (id,rows)
  | .deliver id ⟨.insert,link⟩ => some (id,[link])
  | _ => none

/-- No reload and no insert brings a uniqueid of the link in hand into a watcher that the
scan for it has left behind. -/
def Undisturbed (s : OnlineGate) (action : GateAction) : Prop :=
  ∀ entry ∈ brought action, ∀ link ∈ inHand s.phase, ∀ row ∈ entry.2,
    (behind s.phase .orig entry.1 = true → ¬Clash .orig link row) ∧
    (behind s.phase .term entry.1 = true → ¬Clash .term link row)

instance (s : OnlineGate) (action : GateAction) : Decidable (Undisturbed s action) :=
  inferInstanceAs (Decidable (∀ _ ∈ brought action, ∀ _ ∈ _, ∀ _ ∈ _, (_ → ¬_) ∧ (_ → ¬_)))

theorem check_iff (column : Column) (watcher : OnlineWatcher) (link : CallLegLink) :
    column.check watcher (column.ofLink link) = true ↔ ∃ row ∈ watcher.data, Clash column link row := by
  have search : column.check watcher (column.ofLink link) =
      watcher.checkUniqueId column (column.ofLink link) := by cases column <;> rfl
  rw [search]
  simp only [OnlineWatcher.checkUniqueId,Bool.and_eq_true,Bool.not_eq_true',List.any_eq_true,beq_iff_eq,
    ← Bool.not_eq_true,String.isEmpty_iff,Clash]
  constructor
  · intro found
    obtain ⟨some,row,member,_,same⟩ := found
    exact ⟨row,member,some,same⟩
  · intro clash
    obtain ⟨row,member,some,same⟩ := clash
    exact ⟨some,row,member,same ▸ some,same⟩

/-- What a scan has left behind has no row of the link in hand. -/
def Clear (s : OnlineGate) : Prop :=
  ∀ link ∈ inHand s.phase, ∀ (column : Column) (id : Nat) (watcher : OnlineWatcher),
    s.watchers[id]? = some watcher → behind s.phase column id = true →
    ∀ row ∈ watcher.data, ¬Clash column link row

theorem Undisturbed.column {s : OnlineGate} {action : GateAction} (undisturbed : s.Undisturbed action)
    {id : Nat} {rows : List CallLegLinkOnline} (brings : brought action = some (id,rows))
    {link : CallLegLink} (hand : link ∈ inHand s.phase) {row : CallLegLinkOnline} (member : row ∈ rows)
    (column : Column) (passed : behind s.phase column id = true) : ¬Clash column link row := by
  have both := undisturbed (id,rows) brings link hand row member
  cases column with
  | orig => exact both.1 passed
  | term => exact both.2 passed

theorem clear_set {s : OnlineGate} (clear : s.Clear) {id : Nat} {watcher : OnlineWatcher}
    (rows : ∀ link ∈ inHand s.phase, ∀ column, behind s.phase column id = true →
      ∀ row ∈ watcher.data, ¬Clash column link row) :
    Clear {s with watchers := s.watchers.set id watcher} := by
  intro link hand column other changed found passed
  simp only [List.getElem?_set] at found
  split_ifs at found with same inside
  · subst same
    cases Option.some.inj found
    exact rows link hand column passed
  · exact clear link hand column other changed found passed

theorem clear_scan {s : OnlineGate} (clear : s.Clear) {column : Column} {link : CallLegLink}
    {place : Nat} (phase : s.phase = .scan column link place) (upTo : Nat)
    (none : ∀ id < upTo, ∀ watcher, s.watchers[id]? = some watcher →
      ∀ row ∈ watcher.data, ¬Clash column link row) :
    Clear {s with phase := .scan column link upTo} := by
  intro hand same other id watcher found passed
  cases Option.some.inj same
  cases column with
  | orig =>
    cases other with
    | orig => exact none id (by simpa using passed) watcher found
    | term => simp at passed
  | term =>
    cases other with
    | orig => exact clear link (by simp [phase]) .orig id watcher found (by simp [phase])
    | term => exact none id (by simpa using passed) watcher found

theorem clear_passed {s : OnlineGate} (clear : s.Clear) {column : Column} {link : CallLegLink}
    {place : Nat} (phase : s.phase = .scan column link place)
    (none : ∀ (id : Nat) (watcher : OnlineWatcher), s.watchers[id]? = some watcher →
      ∀ row ∈ watcher.data, ¬Clash column link row) :
    Clear {s with phase := column.passed link} := by
  intro hand same other id watcher found passed
  cases column with
  | orig =>
    cases Option.some.inj same
    cases other with
    | orig => exact none id watcher found
    | term => simp [Column.passed] at passed
  | term =>
    cases Option.some.inj same
    cases other with
    | orig => exact clear link (by simp [phase]) .orig id watcher found (by simp [phase])
    | term => exact none id watcher found

theorem step_clear {settings : Settings} {s next : OnlineGate} {action : GateAction} (clear : s.Clear)
    (undisturbed : s.Undisturbed action) (stepped : s.step settings action = some next) : next.Clear := by
  cases action with
  | take link =>
    simp only [step] at stepped
    split at stepped
    next =>
      cases Option.some.inj stepped
      intro hand _ column id watcher _ passed
      cases column <;> simp at passed
    next => contradiction
  | scan =>
    simp only [step] at stepped
    split at stepped
    next column link place phase =>
      have scanned (id : Nat) (before : id < place) (watcher : OnlineWatcher)
          (found : s.watchers[id]? = some watcher) : ∀ row ∈ watcher.data, ¬Clash column link row := by
        refine clear link (by simp [phase]) column id watcher found ?_
        cases column <;> simpa [phase] using before
      split at stepped
      next empty =>
        cases Option.some.inj stepped
        refine clear_passed clear phase fun _ _ _ row _ clash => clash.1 ?_
        exact String.isEmpty_iff.mp empty
      next =>
        split at stepped
        next elapsed =>
          cases Option.some.inj stepped
          refine clear_passed clear phase fun id watcher found => scanned id ?_ watcher found
          have inside := (List.getElem?_eq_some_iff.mp found).1
          have outside := List.getElem?_eq_none_iff.mp elapsed
          omega
        next watcher current =>
          split at stepped
          next => contradiction
          next =>
            split at stepped
            next =>
              -- a clash: the scan starts again at the first watcher and knows nothing
              cases Option.some.inj stepped
              exact clear_scan clear phase 0 (by simp)
            next unseen =>
              cases Option.some.inj stepped
              refine clear_scan clear phase (place + 1) fun id before other found => ?_
              rcases Nat.lt_succ_iff_lt_or_eq.mp before with earlier | rfl
              · exact scanned id earlier other found
              · cases Option.some.inj (current.symm.trans found)
                intro row member clash
                exact unseen ((check_iff column watcher link).mpr ⟨row,member,clash⟩)
    next => contradiction
  | enqueue =>
    simp only [step] at stepped
    split at stepped
    next link phase =>
      split at stepped
      next =>
        cases Option.some.inj stepped
        intro hand none
        simp at none
      next => contradiction
    next => contradiction
  | dequeue count =>
    cases Option.some.inj stepped
    exact clear
  | fill id rows =>
    simp only [step] at stepped
    split at stepped
    next =>
      cases Option.some.inj stepped
      exact clear_set clear fun link hand column passed row member =>
        undisturbed.column rfl hand member column passed
    next => contradiction
  | deliver id notify =>
    simp only [step] at stepped
    split at stepped
    next watcher found =>
      obtain ⟨data,applied,rfl⟩ := Option.map_eq_some_iff.mp stepped
      refine clear_set clear fun link hand column passed row member => ?_
      rcases notify.apply_mem applied member with ⟨old,there,same⟩ | ⟨event,same⟩
      · have before := clear link hand column id watcher found passed old there
        rw [Clash,← Column.ofRow_eq column same]
        exact before
      · obtain ⟨_,inserted⟩ := notify
        cases event
        have fresh := undisturbed.column rfl hand (List.mem_singleton_self inserted) column passed
        rw [Clash,← Column.ofRow_eq column same]
        exact fresh
    next => contradiction

theorem run_clear {settings : Settings} {watchers : List OnlineWatcher} {s : OnlineGate}
    (run : Run (step settings) Undisturbed {watchers} s) : s.Clear :=
  run.invariant (fun _ none => by simp at none) fun _ _ _ _ clear undisturbed stepped =>
    step_clear clear undisturbed stepped

/-- In a run in which no watcher gains a row of the link behind the scan, a link is
enqueued only while its call is in no watcher. -/
theorem offline_when_enqueued (settings : Settings) (watchers : List OnlineWatcher) (s next : OnlineGate)
    (run : Run (step settings) Undisturbed {watchers} s) (stepped : s.step settings .enqueue = some next) :
    ∃ link, next.output.log = s.output.log ++ [link] ∧ Offline s.watchers link := by
  have clear := run_clear run
  simp only [step] at stepped
  split at stepped
  next link phase =>
    split at stepped
    next =>
      cases Option.some.inj stepped
      refine ⟨link,s.output.log_enqueue link,fun watcher member row inside => ?_⟩
      obtain ⟨id,found⟩ := List.getElem?_of_mem member
      have none (column : Column) : ¬Clash column link row :=
        clear link (by simp [phase]) column id watcher found (by simp [phase]) row inside
      exact ⟨fun some same => none .orig ⟨some,same⟩,fun some same => none .term ⟨some,same⟩⟩
    next => contradiction
  next => contradiction

def passage : List GateAction := [.take (.row "a" "t" "1970-01-01 00:00:05"),.scan,.scan,.scan,.scan]

theorem offline_when_enqueued_passage : ∃ s next : OnlineGate,
    (s.watchers.map (·.data.length) = [1] ∧ next.output.log.length = 1) ∧
    ∃ link, next.output.log = s.output.log ++ [link] ∧ Offline s.watchers link := by
  obtain ⟨s,run,good⟩ := exists_run (step {}) Undisturbed {watchers := [⟨true,[Watching.onlineRow "b" "u"]⟩]}
    (fun s => s.watchers.map (·.data.length) == [1] &&
      (s.step {} .enqueue).any (·.output.log.length == 1)) passage (by decide)
  simp only [Bool.and_eq_true,Option.any_eq_true,beq_iff_eq] at good
  obtain ⟨size,next,stepped,one⟩ := good
  exact ⟨s,next,⟨size,one⟩,offline_when_enqueued {} _ s next run stepped⟩

/-- The watcher gains the link's own row after both scans, before the link is enqueued. -/
theorem enqueued_while_online : ¬∀ (settings : Settings) (watchers : List OnlineWatcher)
    (s next : OnlineGate), Run (step settings) Always {watchers} s →
    s.step settings .enqueue = some next →
    ∃ link, next.output.log = s.output.log ++ [link] ∧ Offline s.watchers link := by
  intro offline
  obtain ⟨s,run,good⟩ := exists_run (step {}) Always {watchers := [⟨true,[]⟩]}
    (fun s => s.watchers.map (·.data.map (·.uniqueidOrig)) == [["a"]] && s.output.log.isEmpty &&
      (s.step {} .enqueue).any (·.output.log.map (·.uniqueidOrig) == ["a"]))
    (passage ++ [.deliver 0 ⟨.insert,Watching.onlineRow "a" "t"⟩]) (by decide)
  simp only [Bool.and_eq_true,Option.any_eq_true,beq_iff_eq,List.isEmpty_iff] at good
  obtain ⟨⟨online,empty⟩,next,stepped,enqueued⟩ := good
  obtain ⟨link,log,apart⟩ := offline {} _ s next run stepped
  obtain ⟨watcher,only,rows⟩ := List.map_eq_singleton_iff.mp online
  obtain ⟨row,alone,orig⟩ := List.map_eq_singleton_iff.mp rows
  have own : link.uniqueidOrig = "a" := by simpa [log,empty] using enqueued
  have differs := (apart watcher (by simp [only]) row (by simp [alone])).1 (by simp [own])
  exact differs (orig.trans own.symm)

end OnlineGate
end Call45Aggr
