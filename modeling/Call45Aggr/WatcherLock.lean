import Call45Aggr.Library.LockedObject
import Call45Aggr.OnlineGate
import Call45Aggr.OnlineNotification

/-! The sections of `OnlineWatcher` under its `Spinlock`, one row of `data_` after another, and
the whole operations they come to whatever the other threads do. -/
namespace Call45Aggr.WatcherLock
open Library

/-- `event` starts where `row` is made from the notification and the texts of the channels
are still to be read, `none` where that throws. -/
inductive Method
  | fill (res : List CallLegLinkOnline)
  | event (named : Option OnlineEvent) (row : CallLegLinkOnline) (channameOrig channameTerm : Option String)
  | check (column : Column) (uniqueId : String)
  | getData

inductive Place
  | clear (res : List CallLegLinkOnline)
  | pushBack (res : List CallLegLinkOnline)
  | insert (row : CallLegLinkOnline) (channameOrig channameTerm : Option String)
  | update (row : CallLegLinkOnline) (channameOrig channameTerm : Option String) (it : Nat)
  | updateTerm (row : CallLegLinkOnline) (channameTerm : Option String) (it : Nat)
  | updateTime (row : CallLegLinkOnline) (it : Nat)
  | delete (row : CallLegLinkOnline) (it : Nat)
  | ignore
  | check (column : Column) (uniqueId : String) (it : Nat)
  | copy (copied : List CallLegLinkOnline)

inductive Result
  | done
  | caught
  | found (answer : Bool)
  | rows (data : List CallLegLinkOnline)
  deriving DecidableEq

def enter : Method → Place
  | .fill res => .clear res
  | .event none _ _ _ => .ignore
  | .event (some .insert) row channameOrig channameTerm => .insert row channameOrig channameTerm
  | .event (some .update) row channameOrig channameTerm => .update row channameOrig channameTerm 0
  | .event (some .delete) row _ _ => .delete row 0
  | .check column uniqueId => .check column uniqueId 0
  | .getData => .copy []

def assign (watcher : OnlineWatcher) (it : Nat) (change : CallLegLinkOnline → CallLegLinkOnline) : OnlineWatcher :=
  {watcher with data := watcher.data.modify it change}

def step (place : Place) (watcher : OnlineWatcher) : OnlineWatcher × (Place ⊕ Result) :=
  match place with
  | .clear res => ({watcher with data := []},.inl (.pushBack res))
  | .pushBack [] => ({watcher with ready := true},.inr .done)
  | .pushBack (row :: res) => ({watcher with data := watcher.data ++ [row.selected]},.inl (.pushBack res))
  | .insert row channameOrig channameTerm =>
    match channameOrig, channameTerm with
    | some channameOrig, some channameTerm =>
      ({watcher with data := watcher.data ++ [{row with channameOrig,channameTerm}]},.inr .done)
    | _, _ => (watcher,.inr .caught)
  | .update row channameOrig channameTerm it =>
    match watcher.data[it]? with
    | none => (watcher,.inr .done)
    | some other =>
      if row.matches other then
        match channameOrig with
        | none => (watcher,.inr .caught)
        | some channameOrig =>
          (assign watcher it fun row => {row with channameOrig},.inl (.updateTerm row channameTerm it))
      else (watcher,.inl (.update row channameOrig channameTerm (it + 1)))
  | .updateTerm row channameTerm it =>
    match channameTerm with
    | none => (watcher,.inr .caught)
    | some channameTerm => (assign watcher it fun row => {row with channameTerm},.inl (.updateTime row it))
  | .updateTime row it => (assign watcher it fun other => {other with linkStartTime := row.linkStartTime},.inr .done)
  | .delete row it =>
    match watcher.data[it]? with
    | none => (watcher,.inr .done)
    | some other =>
      if row.matches other then ({watcher with data := watcher.data.eraseIdx it},.inr .done)
      else (watcher,.inl (.delete row (it + 1)))
  | .ignore => (watcher,.inr .done)
  | .check column uniqueId it =>
    match watcher.data[it]? with
    | none => (watcher,.inr (.found false))
    | some row =>
      if !(column.ofRow row).isEmpty && column.ofRow row == uniqueId then (watcher,.inr (.found true))
      else (watcher,.inl (.check column uniqueId (it + 1)))
  | .copy copied =>
    match watcher.data[copied.length]? with
    | none => (watcher,.inr (.rows copied))
    | some row => (watcher,.inl (.copy (copied ++ [row])))

/-- A check waits for the first round; an empty text is answered without the lock. -/
def admits : Method → OnlineWatcher → Bool
  | .check _ uniqueId, watcher => watcher.ready && !uniqueId.isEmpty
  | .fill _, _ | .event _ _ _ _, _ | .getData, _ => true

def methods : Methods OnlineWatcher Method Place Result := {admits,enter,step}

/-- `SPIN_BEFORE_YIELD` -/
def spinBeforeYield : Nat := 4000

def handleEvent (named : Option OnlineEvent) (row : CallLegLinkOnline) (channameOrig channameTerm : Option String)
    (data : List CallLegLinkOnline) : Handling :=
  match named with
  | some .insert =>
    match channameOrig, channameTerm with
    | some channameOrig, some channameTerm => .applied (data ++ [{row with channameOrig,channameTerm}])
    | _, _ => .caught data
  | some .update => updateRow channameOrig channameTerm row data
  | some .delete => .applied (data.eraseP row.matches)
  | none => .applied data

/-- `front` are the rows the loop has passed. -/
def settle (watcher : OnlineWatcher) (front : List CallLegLinkOnline) : Handling → OnlineWatcher × Result
  | .applied data => ({watcher with data := front ++ data},.done)
  | .caught data => ({watcher with data := front ++ data},.caught)
  | .outside => (watcher,.caught)

def whole : Method → OnlineWatcher → OnlineWatcher × Result
  | .fill res, _ => ({ready := true,data := res.map (·.selected)},.done)
  | .event named row channameOrig channameTerm, watcher =>
    settle watcher [] (handleEvent named row channameOrig channameTerm watcher.data)
  | .check column uniqueId, watcher => (watcher,.found (column.check watcher uniqueId))
  | .getData, watcher => (watcher,.rows watcher.data)

theorem settle_keep (watcher : OnlineWatcher) (front : List CallLegLinkOnline) (it : CallLegLinkOnline) (handling : Handling) :
    settle watcher front (handling.keep it) = settle watcher (front ++ [it]) handling := by
  cases handling with
  | applied data => simp [Handling.keep,settle]
  | caught data => simp [Handling.keep,settle]
  | outside => rfl

section
variable {watcher after : OnlineWatcher} {result : Result} {front rest : List CallLegLinkOnline}

theorem reached (data : watcher.data = front ++ rest) : watcher.data[front.length]? = rest.head? := by
  rw [data,List.getElem?_append_right (Nat.le_refl _),Nat.sub_self,List.head?_eq_getElem?]

theorem assign_reached {row : CallLegLinkOnline} (data : watcher.data = front ++ row :: rest)
    (change : CallLegLinkOnline → CallLegLinkOnline) :
    assign watcher front.length change = {watcher with data := front ++ change row :: rest} := by
  have reached : (front ++ row :: rest)[front.length]? = some row := by simp
  rw [assign,data,List.modify_eq_set_getElem?,reached]
  simp

theorem pushBack_whole {res : List CallLegLinkOnline} (runs : methods.Runs (.pushBack res) watcher result after) :
    (after,result) = ({ready := true,data := watcher.data ++ res.map (·.selected)},Result.done) := by
  induction res generalizing watcher with
  | nil =>
    obtain ⟨rfl,rfl⟩ := runs.stops rfl
    simp
  | cons row res ih =>
    rw [ih (runs.goes rfl)]
    simp

theorem update_whole {row : CallLegLinkOnline} {channameOrig channameTerm : Option String}
    (data : watcher.data = front ++ rest)
    (runs : methods.Runs (.update row channameOrig channameTerm front.length) watcher result after) :
    settle watcher front (updateRow channameOrig channameTerm row rest) = (after,result) := by
  induction rest generalizing front with
  | nil =>
    have stepped : step (.update row channameOrig channameTerm front.length) watcher = (watcher,.inr .done) := by
      simp only [step,reached data,List.head?_nil]
    obtain ⟨rfl,rfl⟩ := runs.stops stepped
    rw [updateRow,settle,← data]
  | cons it rest ih =>
    have here : watcher.data[front.length]? = some it := reached data
    by_cases found : row.matches it
    · simp only [updateRow,if_pos found]
      cases channameOrig with
      | none =>
        have stepped : step (.update row none channameTerm front.length) watcher = (watcher,.inr .caught) := by
          simp only [step,here,if_pos found]
        obtain ⟨rfl,rfl⟩ := runs.stops stepped
        rw [settle,← data]
      | some channameOrig =>
        have stepped : step (.update row (some channameOrig) channameTerm front.length) watcher =
            (assign watcher front.length fun row => {row with channameOrig},
              .inl (.updateTerm row channameTerm front.length)) := by
          simp only [step,here,if_pos found]
        have runs := runs.goes stepped
        rw [assign_reached data] at runs
        cases channameTerm with
        | none =>
          obtain ⟨rfl,rfl⟩ := runs.stops rfl
          rfl
        | some channameTerm =>
          have runs := runs.goes rfl
          rw [assign_reached rfl] at runs
          obtain ⟨rfl,rfl⟩ := runs.stops rfl
          rw [assign_reached rfl]
          rfl
    · simp only [updateRow,if_neg found,settle_keep]
      have stepped : step (.update row channameOrig channameTerm front.length) watcher =
          (watcher,.inl (.update row channameOrig channameTerm (front.length + 1))) := by
        simp only [step,here,if_neg found]
      have runs := runs.goes stepped
      have passed : front.length + 1 = (front ++ [it]).length := by simp
      rw [passed] at runs
      exact ih (by simpa using data) runs

theorem delete_whole {row : CallLegLinkOnline} (data : watcher.data = front ++ rest)
    (runs : methods.Runs (.delete row front.length) watcher result after) :
    (after,result) = ({watcher with data := front ++ rest.eraseP row.matches},Result.done) := by
  induction rest generalizing front with
  | nil =>
    have stepped : step (.delete row front.length) watcher = (watcher,.inr .done) := by
      simp only [step,reached data,List.head?_nil]
    obtain ⟨rfl,rfl⟩ := runs.stops stepped
    rw [List.eraseP_nil,← data]
  | cons it rest ih =>
    have here : watcher.data[front.length]? = some it := reached data
    by_cases found : row.matches it
    · have stepped : step (.delete row front.length) watcher =
          ({watcher with data := watcher.data.eraseIdx front.length},.inr .done) := by
        simp only [step,here,if_pos found]
      obtain ⟨rfl,rfl⟩ := runs.stops stepped
      rw [data,List.eraseIdx_append_of_length_le (Nat.le_refl _),List.eraseP_cons_of_pos found]
      simp
    · have stepped : step (.delete row front.length) watcher = (watcher,.inl (.delete row (front.length + 1))) := by
        simp only [step,here,if_neg found]
      have runs := runs.goes stepped
      have passed : front.length + 1 = (front ++ [it]).length := by simp
      rw [passed] at runs
      rw [ih (by simpa using data) runs,List.eraseP_cons_of_neg found]
      simp

theorem check_whole {column : Column} {uniqueId : String} (data : watcher.data = front ++ rest)
    (runs : methods.Runs (.check column uniqueId front.length) watcher result after) :
    (after,result) = (watcher,.found
      (rest.any fun row => !(column.ofRow row).isEmpty && column.ofRow row == uniqueId)) := by
  induction rest generalizing front with
  | nil =>
    have stepped : step (.check column uniqueId front.length) watcher = (watcher,.inr (.found false)) := by
      simp only [step,reached data,List.head?_nil]
    obtain ⟨rfl,rfl⟩ := runs.stops stepped
    rfl
  | cons row rest ih =>
    have here : watcher.data[front.length]? = some row := reached data
    rw [List.any_cons]
    by_cases found : (!(column.ofRow row).isEmpty && column.ofRow row == uniqueId) = true
    · have stepped : step (.check column uniqueId front.length) watcher = (watcher,.inr (.found true)) := by
        simp only [step,here,if_pos found]
      obtain ⟨rfl,rfl⟩ := runs.stops stepped
      rw [found,Bool.true_or]
    · have stepped : step (.check column uniqueId front.length) watcher =
          (watcher,.inl (.check column uniqueId (front.length + 1))) := by
        simp only [step,here,if_neg found]
      have runs := runs.goes stepped
      have passed : front.length + 1 = (front ++ [row]).length := by simp
      rw [passed] at runs
      rw [ih (by simpa using data) runs,Bool.eq_false_iff.mpr found,Bool.false_or]

theorem copy_whole (data : watcher.data = front ++ rest) (runs : methods.Runs (.copy front) watcher result after) :
    (after,result) = (watcher,.rows watcher.data) := by
  induction rest generalizing front with
  | nil =>
    have stepped : step (.copy front) watcher = (watcher,.inr (.rows front)) := by
      simp only [step,reached data,List.head?_nil]
    obtain ⟨rfl,rfl⟩ := runs.stops stepped
    rw [data,List.append_nil]
  | cons row rest ih =>
    have here : watcher.data[front.length]? = some row := reached data
    have stepped : step (.copy front) watcher = (watcher,.inl (.copy (front ++ [row]))) := by
      simp only [step,here]
    exact ih (by simpa using data) (runs.goes stepped)

end

/-- No row has an empty text that a check could find. -/
theorem check_eq (column : Column) (watcher : OnlineWatcher) (uniqueId : String) :
    column.check watcher uniqueId =
      watcher.data.any fun row => !(column.ofRow row).isEmpty && column.ofRow row == uniqueId := by
  have searched : column.check watcher uniqueId = watcher.checkUniqueId column uniqueId := by
    cases column with
    | orig => rfl
    | term => rfl
  rw [searched,OnlineWatcher.checkUniqueId]
  by_cases empty : uniqueId.isEmpty
  · obtain rfl := String.isEmpty_iff.mp empty
    symm
    apply List.any_eq_false.mpr
    intro row _
    simp
  · rw [Bool.eq_false_iff.mpr empty,Bool.not_false,Bool.true_and]

theorem atomic : methods.Atomic whole := by
  intro method watcher result after runs
  cases method with
  | fill res =>
    rw [pushBack_whole (runs.goes rfl)]
    rfl
  | event named row channameOrig channameTerm =>
    cases named with
    | none =>
      obtain ⟨rfl,rfl⟩ := runs.stops rfl
      rfl
    | some named =>
      cases named with
      | insert =>
        cases channameOrig with
        | none =>
          obtain ⟨rfl,rfl⟩ := runs.stops rfl
          rfl
        | some channameOrig =>
          cases channameTerm with
          | none =>
            obtain ⟨rfl,rfl⟩ := runs.stops rfl
            rfl
          | some channameTerm =>
            obtain ⟨rfl,rfl⟩ := runs.stops rfl
            rfl
      | update => exact update_whole (List.nil_append _).symm runs
      | delete =>
        rw [delete_whole (List.nil_append _).symm runs]
        rfl
  | check column uniqueId =>
    rw [whole,check_eq]
    exact (check_whole (List.nil_append _).symm runs).symm
  | getData => exact (copy_whole (List.nil_append _).symm runs).symm

/-- Steps until the section ends. -/
def size (place : Place) (watcher : OnlineWatcher) : Nat :=
  match place with
  | .clear res => res.length + 1
  | .pushBack res => res.length
  | .update _ _ _ it => watcher.data.length - it + 3
  | .updateTerm _ _ _ => 2
  | .updateTime _ _ => 1
  | .delete _ it | .check _ _ it => watcher.data.length - it
  | .copy copied => watcher.data.length - copied.length
  | .insert _ _ _ | .ignore => 0

theorem size_goes {watcher after : OnlineWatcher} {place next : Place} (stepped : step place watcher = (after,.inl next)) :
    size next after < size place watcher := by
  have inside {it : Nat} {row : CallLegLinkOnline} (found : watcher.data[it]? = some row) : it < watcher.data.length :=
    (List.getElem?_eq_some_iff.mp found).1
  cases place with
  | clear res =>
    cases stepped
    exact Nat.lt_succ_self _
  | pushBack res =>
    cases res with
    | nil => cases stepped
    | cons row res =>
      cases stepped
      exact Nat.lt_succ_self _
  | insert row channameOrig channameTerm =>
    simp only [step] at stepped
    split at stepped <;> cases stepped
  | update row channameOrig channameTerm it =>
    simp only [step] at stepped
    split at stepped
    · cases stepped
    next other found =>
      have bound := inside found
      split at stepped
      · split at stepped
        · cases stepped
        · cases stepped
          simp only [size]
          omega
      · cases stepped
        simp only [size]
        omega
  | updateTerm row channameTerm it =>
    simp only [step] at stepped
    split at stepped <;> cases stepped
    exact Nat.lt_succ_self 1
  | updateTime row it => cases stepped
  | delete row it =>
    simp only [step] at stepped
    split at stepped
    · cases stepped
    next other found =>
      have bound := inside found
      split at stepped <;> cases stepped
      simp only [size]
      omega
  | ignore => cases stepped
  | check column uniqueId it =>
    simp only [step] at stepped
    split at stepped
    · cases stepped
    next row found =>
      have bound := inside found
      split at stepped <;> cases stepped
      simp only [size]
      omega
  | copy copied =>
    simp only [step] at stepped
    split at stepped
    · cases stepped
    next row found =>
      have bound := inside found
      cases stepped
      simp only [size,List.length_append,List.length_singleton]
      omega

/-- What is left of `handle` under the lock, once the row is made. -/
theorem handle_event (parse : String → Option Json) (asString : Json → Option String) (relname extra : String)
    (data : List CallLegLinkOnline) {uniqueidOrig uniqueidTerm date time : String}
    (orig : linkText parse asString extra "uniqueid_orig" = some uniqueidOrig)
    (term : linkText parse asString extra "uniqueid_term" = some uniqueidTerm)
    (start : linkText parse asString extra "link_start_time" = some date) (formatted : formatDateTime date = some time) :
    handle parse asString relname extra data = handleEvent (OnlineEvent.named relname)
      (newRow uniqueidOrig uniqueidTerm time) (linkText parse asString extra "channame_orig")
      (linkText parse asString extra "channame_term") data := by
  cases event : OnlineEvent.named relname with
  | none => simp only [handle,orig,term,start,formatted,handleEvent,event]
  | some named =>
    cases named with
    | insert =>
      cases first : linkText parse asString extra "channame_orig" with
      | none => simp only [handle,orig,term,start,formatted,handleEvent,event,first]
      | some channameOrig =>
        cases second : linkText parse asString extra "channame_term" with
        | none => simp only [handle,orig,term,start,formatted,handleEvent,event,first,second]
        | some channameTerm => simp only [handle,orig,term,start,formatted,handleEvent,event,first,second]
    | update => simp only [handle,orig,term,start,formatted,handleEvent,event]
    | delete => simp only [handle,orig,term,start,formatted,handleEvent,event]

/-- Whatever the threads do, one at most is in a section, the calls return what they would
return one after another, and so are the rows wherever the lock is free, which the thread
that has it can always make it. -/
theorem watcher_serialised {s : LockedObject OnlineWatcher Method Place Result}
    (run : Run (methods.lockStep spinBeforeYield) Always {object := {}} s) :
    (∀ thread other, (s.threads thread).Holds → (s.threads other).Holds → thread = other) ∧
      Methods.Answered whole {} s.returned ∧ (s.isLocked = false → s.object = Methods.replay whole {} s.returned) ∧
      ∀ thread, (s.threads thread).Holds → ∃ later,
        Run (methods.lockStep spinBeforeYield) (fun _ action => action = .work thread ∨ action = .clear thread) s later ∧
          later.isLocked = false := by
  obtain ⟨alone,answered,rows⟩ := Methods.serialised atomic run
  refine ⟨alone,answered,rows,fun thread holds => ?_⟩
  exact Methods.comes_free (fun _ _ _ _ stepped => size_goes stepped) holds

def ringing : CallLegLinkOnline := ⟨"1573516800.1","SIP/100","1573516800.2","SIP/200","2019-11-12 00:00:00"⟩

/-- A copy is asked for while the rows are cleared and not yet filled. -/
def copying : List (LockAction Method) := [.call 0 (.fill [ringing]),.testAndSet 0,.work 0,.call 1 .getData,.testAndSet 1,
  .work 0,.work 0,.clear 0,.testAndSet 1,.work 1,.work 1,.clear 1]

theorem watcher_serialised_copying : ∃ s : LockedObject OnlineWatcher Method Place Result,
    s.returned.map (·.result) = [.done,.rows [ringing.selected]] ∧ Methods.Answered whole {} s.returned := by
  obtain ⟨s,run,reached⟩ := exists_run (methods.lockStep spinBeforeYield) Always {object := {}}
    (fun s => s.returned.map (·.result) = [.done,.rows [ringing.selected]]) copying (by decide)
  exact ⟨s,of_decide_eq_true reached,(watcher_serialised run).2.1⟩

end Call45Aggr.WatcherLock
