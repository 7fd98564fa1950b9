import Call45Aggr.Common
import Call45Aggr.Reader

/-! The windows of a reader tile the time line, and a window is read only when no row
can appear in it any more. -/
namespace Call45Aggr
open Library

namespace Reading
variable {Row : Type}

/-- A row becomes visible no later than the waiting time after its start. -/
def Timely (src : Source Row) (settings : Settings) (s : Reading Row) : ReadAction Row → Prop
  | .insert row => s.clock ≤ src.start row + seconds settings.readWaitingSecond * 1000000
  | _ => True

instance (src : Source Row) (settings : Settings) (s : Reading Row) (action : ReadAction Row) :
    Decidable (Timely src settings s action) := by
  unfold Timely
  split <;> infer_instance

/-- Rows of every window up to `startTime_` are enqueued once, and of the others only
rows of the window being read. -/
def ReadOnce (src : Source Row) (stemp : Int) (s : Reading Row) : Prop :=
  ∃ current : List Row,
    s.output.log.Perm (src.select s.table stemp s.reader.startTime ++ current) ∧
    current.Subperm (src.select s.table s.reader.startTime s.reader.stopTime) ∧
    ((∀ rows, s.reader.phase ≠ .put rows) → current = [])

/-- No row at or before the time can become visible any more. -/
def Over (settings : Settings) (s : Reading Row) (time : Int) : Prop :=
  (time + seconds settings.readWaitingSecond) * 1000000 < s.clock

def open? (phase : ReaderPhase Row) : Bool :=
  match phase with
  | .opened => true
  | .cleared => true
  | .put _ => true
  | .closed => true
  | _ => false

structure Tiled (src : Source Row) (settings : Settings) (stemp : Int) (s : Reading Row) : Prop where
  lower : stemp ≤ s.reader.startTime
  upper : s.reader.startTime ≤ s.reader.stopTime
  asked : ∀ now, s.reader.phase = .asked now → now * 1000000 ≤ s.clock
  start : s.reader.startTime = stemp ∨ Over settings s s.reader.startTime
  stop : open? s.reader.phase = true → Over settings s s.reader.stopTime
  logged : ∃ current, s.output.log.Perm (src.select s.table stemp s.reader.startTime ++ current) ∧
    (∀ rows, s.reader.phase = .put rows →
      (current ++ rows).Perm (src.select s.table s.reader.startTime s.reader.stopTime)) ∧
    ((∀ rows, s.reader.phase ≠ .put rows) → current = [])

theorem Over.insert {src : Source Row} {settings : Settings} {s : Reading Row} {low high : Int}
    (elapsed : low = high ∨ Over settings s high) {row : Row}
    (timely : Timely src settings s (.insert row)) :
    src.select (s.table ++ [row]) low high = src.select s.table low high := by
  have outside : src.within low high row = false := by
    rw [← Bool.not_eq_true,Source.within_iff]
    rcases elapsed with same | elapsed
    · omega
    · simp only [Over,Timely] at elapsed timely
      omega
  simp [Source.select,outside]

theorem over_of_found {src : Source Row} {settings : Settings} {s : Reading Row} {now stop : Int}
    {row : Row} (asked : now * 1000000 ≤ s.clock)
    (found : row ∈ src.select s.table stop (now - seconds settings.readWaitingSecond)) :
    Over settings s stop := by
  obtain ⟨_,after,upTo⟩ := src.mem_select.mp found
  simp only [Over]
  omega

theorem step_tiled {src : Source Row} {settings : Settings} {stemp : Int} {s next : Reading Row}
    {action : ReadAction Row} (tiled : Tiled src settings stemp s)
    (timely : Timely src settings s action) (stepped : step src settings s action = some next) :
    Tiled src settings stemp next := by
  obtain ⟨lower,upper,asked,start,stop,current,log,window,none⟩ := tiled
  cases step_cases stepped with
  | tick clock later =>
    refine ⟨lower,upper,?_,?_,?_,current,log,window,none⟩
    · intro now phase
      have before := asked now phase
      dsimp only
      omega
    · refine start.imp_right fun elapsed => ?_
      simp only [Over] at elapsed ⊢
      omega
    · intro chosen
      have elapsed := stop chosen
      simp only [Over] at elapsed ⊢
      omega
  | insert row =>
    -- a row that appears now starts after every window chosen so far
    refine ⟨lower,upper,asked,start,stop,current,?_,?_,none⟩
    · rw [Over.insert (start.imp_left Eq.symm) timely]
      exact log
    · intro rows phase
      rw [Over.insert (.inr (stop (by rw [phase]; rfl))) timely]
      exact window rows phase
  | pause paused => exact ⟨lower,upper,asked,start,stop,current,log,window,none⟩
  | dequeue count =>
    refine ⟨lower,upper,asked,start,stop,current,?_,window,none⟩
    rw [Fifo.log_dequeueBulk]
    exact log
  | ripen phase passed =>
    have idle := none (by simp [phase])
    exact ⟨lower,upper,by simp,start,by simp [open?],current,log,by simp,fun _ => idle⟩
  | time phase =>
    have idle := none (by simp [phase])
    refine ⟨lower,upper,?_,start,by simp [open?],current,log,by simp,fun _ => idle⟩
    intro now same
    cases same
    simp only [Reading.time]
    omega
  | again now phase =>
    have idle := none (by simp [phase])
    exact ⟨lower,upper,by simp,start,by simp [open?],current,log,by simp,fun _ => idle⟩
  | found now row phase member =>
    have idle := none (by simp [phase])
    exact ⟨lower,upper,by simp,start,fun _ => over_of_found (asked now phase) member,current,log,
      by simp,fun _ => idle⟩
  | clear phase running =>
    have idle := none (by simp [phase])
    exact ⟨lower,upper,by simp,start,fun _ => stop (by rw [phase]; rfl),current,log,by simp,fun _ => idle⟩
  | fetch phase =>
    have idle := none (by simp [phase])
    refine ⟨lower,upper,by simp,start,fun _ => stop (by rw [phase]; rfl),current,log,?_,?_⟩
    · intro rows same
      cases same
      simpa [idle] using src.orderBy_perm _
    · intro apart
      exact absurd rfl (apart _)
  | put row rows phase =>
    refine ⟨lower,upper,by simp,start,fun _ => stop (by rw [phase]; rfl),current ++ [row],?_,?_,?_⟩
    · rw [Fifo.log_enqueue,← List.append_assoc]
      exact log.append_right [row]
    · intro others same
      cases same
      simpa using window _ phase
    · intro apart
      exact absurd rfl (apart _)
  | close phase =>
    -- the window just read joins the tiled ones
    have elapsed := stop (by rw [phase]; rfl)
    refine ⟨lower.trans upper,le_refl _,by simp,.inr elapsed,fun _ => elapsed,[],?_,by simp,fun _ => rfl⟩
    have rows : current.Perm (src.select s.table s.reader.startTime s.reader.stopTime) := by
      simpa using window [] phase
    simpa using log.trans ((rows.append_left _).trans (src.select_append s.table lower upper))
  | widen found width phase wider =>
    have idle := none (by simp [phase])
    refine ⟨lower,?_,by simp,start,by simp [open?],current,log,by simp,fun _ => idle⟩
    dsimp only
    omega

theorem setStart_tiled (src : Source Row) (settings : Settings) (stemp clock : Int) (table : List Row) :
    Tiled src settings stemp (setStart settings stemp table clock) := by
  have width := seconds_nonneg settings.readThresholdSecond
  refine ⟨le_refl _,?_,by simp [setStart,Reader.setStart],.inl rfl,
    by simp [setStart,Reader.setStart,open?],[],?_,by simp [setStart,Reader.setStart],fun _ => rfl⟩
  · simp only [setStart,Reader.setStart]
    omega
  · simp [setStart,Reader.setStart,Fifo.log]

theorem run_tiled {src : Source Row} {settings : Settings} {stemp clock : Int} {table : List Row}
    {s : Reading Row}
    (run : Run (step src settings) (Timely src settings) (setStart settings stemp table clock) s) :
    Tiled src settings stemp s :=
  run.invariant (setStart_tiled src settings stemp clock table) fun _ _ _ _ tiled timely stepped =>
    step_tiled tiled timely stepped

theorem Tiled.readOnce {src : Source Row} {settings : Settings} {stemp : Int} {s : Reading Row}
    (tiled : Tiled src settings stemp s) : ReadOnce src stemp s := by
  obtain ⟨current,log,window,none⟩ := tiled.logged
  refine ⟨current,log,?_,none⟩
  by_cases reading : ∃ rows, s.reader.phase = .put rows
  · obtain ⟨rows,phase⟩ := reading
    exact (List.sublist_append_left current rows).subperm.trans (window rows phase).subperm
  · rw [none fun rows phase => reading ⟨rows,phase⟩]
    exact List.nil_subperm

theorem Tiled.bounds {src : Source Row} {settings : Settings} {stemp : Int} {s : Reading Row}
    (tiled : Tiled src settings stemp s) {row : Row} (logged : row ∈ s.output.log) :
    stemp * 1000000 < src.start row ∧ src.start row ≤ s.reader.stopTime * 1000000 := by
  have lower := tiled.lower
  have upper := tiled.upper
  obtain ⟨current,log,inside,_⟩ := tiled.readOnce
  rcases List.mem_append.mp (log.subset logged) with old | new
  · have within := (src.mem_select.mp old).2
    omega
  · have within := (src.mem_select.mp (inside.subset new)).2
    omega

theorem Tiled.closed {src : Source Row} {settings : Settings} {stemp : Int} {s : Reading Row}
    (tiled : Tiled src settings stemp s) (idle : ∀ rows, s.reader.phase ≠ .put rows) {row : Row}
    (logged : row ∈ s.output.log) : src.start row ≤ s.reader.startTime * 1000000 := by
  obtain ⟨current,log,_,none⟩ := tiled.readOnce
  have member := log.subset logged
  rw [none idle,List.append_nil] at member
  exact (src.mem_select.mp member).2.2

theorem Tiled.logs {src : Source Row} {settings : Settings} {stemp : Int} {s : Reading Row}
    (tiled : Tiled src settings stemp s) {row : Row} (member : row ∈ s.table)
    (after : stemp * 1000000 < src.start row)
    (upTo : src.start row ≤ s.reader.startTime * 1000000) : row ∈ s.output.log := by
  obtain ⟨current,log,_,_⟩ := tiled.readOnce
  apply log.symm.subset
  exact List.mem_append_left _ (src.mem_select.mpr ⟨member,after,upTo⟩)

theorem Tiled.reading {src : Source Row} {settings : Settings} {stemp : Int} {s : Reading Row}
    (tiled : Tiled src settings stemp s) {rows : List Row} (phase : s.reader.phase = .put rows)
    {row : Row} (member : row ∈ s.table) (after : s.reader.startTime * 1000000 < src.start row)
    (upTo : src.start row ≤ s.reader.stopTime * 1000000) : row ∈ s.output.log ∨ row ∈ rows := by
  obtain ⟨current,log,window,_⟩ := tiled.logged
  have selected := (window rows phase).symm.subset (src.mem_select.mpr ⟨member,after,upTo⟩)
  rcases List.mem_append.mp selected with read | unread
  · exact .inl (log.symm.subset (List.mem_append_right _ read))
  · exact .inr unread

/-- Both readers: whatever the pauses, the step sizes and the clock, each row between the
initial start and `startTime_` is enqueued exactly once. -/
theorem exactly_once (settings : Settings) (stemp clock : Int) :
    (∀ (start : CallLeg → Int) (table : List CallLeg) (s : Reading CallLeg),
      Run (step (ReadCallLeg.source start) settings) (Timely (ReadCallLeg.source start) settings)
        (setStart settings stemp table clock) s →
      ReadOnce (ReadCallLeg.source start) stemp s) ∧
    (∀ (start : CallLegLink → Int) (table : List CallLegLink) (s : Reading CallLegLink),
      Run (step (ReadCallLegLink.source start) settings) (Timely (ReadCallLegLink.source start) settings)
        (setStart settings stemp table clock) s →
      ReadOnce (ReadCallLegLink.source start) stemp s) :=
  ⟨fun _ _ _ run => (run_tiled run).readOnce,fun _ _ _ run => (run_tiled run).readOnce⟩

def shortWindows : Settings := {maxCallTime := 10,readThresholdSecond := 10,readWaitingSecond := 0}

def instant (text : String) : Int := parseDateTime default text * 1000000

def opening (rows : Nat) : List (ReadAction Row) :=
  [.ripen,.time,.query,.clear,.fetch] ++ List.replicate rows .put

def window (rows : Nat) : List (ReadAction Row) := opening rows ++ [.close,.widen false]

theorem exactly_once_twoWindows :
    (∃ s : Reading CallLeg, (s.output.log.length = 2 ∧ s.reader.startTime = 20) ∧
      ReadOnce (ReadCallLeg.source fun leg => instant leg.startTime) 0 s) ∧
    ∃ s : Reading CallLegLink, (s.output.log.length = 2 ∧ s.reader.startTime = 20) ∧
      ReadOnce (ReadCallLegLink.source fun link => instant link.linkStartTime) 0 s := by
  refine ⟨?_,?_⟩
  · obtain ⟨s,run,good⟩ := exists_run (step (ReadCallLeg.source fun leg => instant leg.startTime) shortWindows)
      (Timely (ReadCallLeg.source fun leg => instant leg.startTime) shortWindows)
      (setStart shortWindows 0 [.row "a" true "1970-01-01 00:00:05",.row "t" false "1970-01-01 00:00:15",
        .row "m" true "1970-01-01 00:01:00"] 100000000)
      (fun s => s.output.log.length == 2 && s.reader.startTime == 20) (window 1 ++ window 1) (by decide)
    simp only [Bool.and_eq_true,beq_iff_eq] at good
    exact ⟨s,good,(exactly_once shortWindows 0 100000000).1 _ _ s run⟩
  · obtain ⟨s,run,good⟩ := exists_run
      (step (ReadCallLegLink.source fun link => instant link.linkStartTime) shortWindows)
      (Timely (ReadCallLegLink.source fun link => instant link.linkStartTime) shortWindows)
      (setStart shortWindows 0 [.row "a" "t" "1970-01-01 00:00:05",.row "b" "u" "1970-01-01 00:00:15",
        .row "c" "v" "1970-01-01 00:01:00"] 100000000)
      (fun s => s.output.log.length == 2 && s.reader.startTime == 20) (window 1 ++ window 1) (by decide)
    simp only [Bool.and_eq_true,beq_iff_eq] at good
    exact ⟨s,good,(exactly_once shortWindows 0 100000000).2 _ _ s run⟩

end Reading
end Call45Aggr
