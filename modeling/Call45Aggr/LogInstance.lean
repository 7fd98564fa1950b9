import Call45Aggr.Library.Channel
import Call45Aggr.Library.Run
import Call45Aggr.Library.SortedMap
import Mathlib.Data.List.ReduceOption
import Mathlib.Data.String.Basic

/-! The log: threads put messages into its queue, the log thread keeps them until a flush
marker and then passes them to the handlers, and `application::stop` ends the thread. -/
namespace Call45Aggr
open Library

inductive LogLevel
  | critical
  | warning
  | error
  | notice
  | info
  | verbose
  | debug
  deriving DecidableEq

def LogLevel.value : LogLevel → Nat
  | .critical => 0
  | .warning => 1
  | .error => 2
  | .notice => 3
  | .info => 4
  | .verbose => 5
  | .debug => 6

structure LogMessage where
  message : String
  timestamp : Int
  level : LogLevel
  delayInSeconds : Int := 0
  deriving DecidableEq

def LogMessage.Delayed (message : LogMessage) : Prop := message.delayInSeconds ≠ 0

instance (message : LogMessage) : Decidable message.Delayed := inferInstanceAs (Decidable (_ ≠ _))

structure DelayValue where
  lastTimestamp : Int := 0
  count : Nat := 0
  level : LogLevel

def maxDelay : Int := 9223372036854775807

/-- What `clear_logs` sends; nothing reads its level. -/
def clearRequest : LogMessage := ⟨"",0,.critical,maxDelay⟩

/-- A thread that logs. The log thread does so when it clears the delayed messages. -/
inductive Producer
  | log
  | thread (id : Nat)
  deriving DecidableEq

/-- The null pointer is the flush marker. -/
abbrev LogItem := Option LogMessage

/-- Messages carry the thread that sent them. -/
structure LogInstance where
  handlers : List (List (Producer × LogMessage))
  messages : List (Producer × LogMessage) := []
  delayStorage : SortedMap String DelayValue := .empty
  queue : Channel Producer LogItem := {}

namespace LogInstance

def repeated (count : Nat) (message : String) : String :=
  if count = 1 then message else "[x" ++ toString count ++ "] " ++ message

/-- The branch of `delay_message` for a message with a delay of its own; `none` delays it. -/
def delay (storage : SortedMap String DelayValue) (message : LogMessage) :
    SortedMap String DelayValue × Option LogMessage :=
  let d := (storage.find? message.message).getD {level := message.level}
  let count := (d.count + 1) % 18446744073709551616
  if message.timestamp - d.lastTimestamp > message.delayInSeconds then
    (storage.insert message.message ⟨message.timestamp,0,message.level⟩,
      some {message with message := repeated count message.message})
  else (storage.insert message.message ⟨d.lastTimestamp,count,message.level⟩,none)

theorem delay_kept (storage : SortedMap String DelayValue) (message : LogMessage) :
    ∀ passed ∈ (delay storage message).2, passed.delayInSeconds = message.delayInSeconds := by
  unfold delay
  dsimp only
  split <;> simp

def expired (now : Int) (value : DelayValue) : Bool := decide (now - value.lastTimestamp > 3600)

/-- What `clear_delay_messages` sends, in the order of the names; the container has an
order of its own. -/
def summaries (storage : SortedMap String DelayValue) (now : Int) : List LogMessage :=
  (storage.entries.filter fun entry => expired now entry.2 && decide (0 < entry.2.count)).map
    fun entry => ⟨repeated entry.2.count entry.1,entry.2.lastTimestamp,entry.2.level,0⟩

def clearDelayMessages (storage : SortedMap String DelayValue) (now : Int) : SortedMap String DelayValue :=
  storage.filter fun entry => !expired now entry.2

def enqueue (log : LogInstance) (producer : Producer) (item : LogItem) : LogInstance :=
  {log with queue := log.queue.enqueue producer item}

def push (log : LogInstance) (producer : Producer) (message : LogMessage) : LogInstance :=
  {log with messages := log.messages ++ [(producer,message)]}

def onLog (log : LogInstance) : LogInstance :=
  {log with handlers := log.handlers.map (· ++ log.messages),messages := []}

end LogInstance

inductive LogThread
  | test
  | waiting
  | clearing (summaries : List LogMessage)
  | exited
  deriving DecidableEq

/-- The routine of a cyclic task; what others log is sent by actions of its own. -/
inductive Routine
  | flushLogs
  | clearLogs
  | other
  deriving DecidableEq

/-- Where `application::stop` is: its thread, and the routines it still has to call. From
`joining` on the instance can no longer be reached. -/
inductive StopPhase
  | idle
  | stopping (thread : Nat)
  | routines (thread : Nat) (rest : List Routine)
  | joining
  | joined
  deriving DecidableEq

/-- The daemon as far as it logs. `sent` has all messages put into the queue. -/
structure LogDaemon where
  running : Bool := true
  cyclicTasks : List Routine
  log : LogInstance
  thread : LogThread := .test
  stop : StopPhase := .idle
  sent : List (Producer × LogMessage) := []

namespace LogDaemon

inductive Action
  | test
  | take (place : Nat) (now : Int) (summaries : List LogMessage)
  | clear
  | send (thread : Nat) (message : LogMessage)
  | flush (thread : Nat)
  | stop (thread : Nat)
  | notice (logLevel : LogLevel) (timestamp : Int)
  | routine
  | sentinel
  | join

def Reachable (s : LogDaemon) : Prop := s.stop ≠ .joining ∧ s.stop ≠ .joined

instance (s : LogDaemon) : Decidable s.Reachable := inferInstanceAs (Decidable (_ ∧ _))

def send (s : LogDaemon) (producer : Producer) (item : LogItem) : LogDaemon :=
  {s with
    log := s.log.enqueue producer item
    sent := s.sent ++ (item.map fun message => (producer,message)).toList}

/-- One turn of `loop` after `wait_dequeue`; clearing what was delayed goes on from it. -/
def handle (s : LogDaemon) (producer : Producer) (now : Int) (order : List LogMessage) :
    LogItem → Option LogDaemon
  | none => some {s with log := s.log.onLog,thread := .test}
  | some message =>
    if message.delayInSeconds = 0 then some {s with log := s.log.push producer message,thread := .test}
    else if message.delayInSeconds = maxDelay then
      if order.isPerm (LogInstance.summaries s.log.delayStorage now) then
        some {s with
          log := {s.log with delayStorage := LogInstance.clearDelayMessages s.log.delayStorage now}
          thread := .clearing order}
      else none
    else
      let (storage,passed) := LogInstance.delay s.log.delayStorage message
      let log := {s.log with delayStorage := storage}
      some {s with log := (passed.elim log (log.push producer)),thread := .test}

def step (s : LogDaemon) : Action → Option LogDaemon
  | .test =>
    if s.thread = .test then some {s with thread := if s.running then .waiting else .exited} else none
  | .take place now order =>
    if s.thread = .waiting then
      (s.log.queue.dequeue place).bind fun taken =>
        {s with log := {s.log with queue := taken.2}}.handle taken.1.1 now order taken.1.2
    else none
  | .clear =>
    match s.thread with
    | .clearing [] => some {s with thread := .test}
    | .clearing (message :: rest) =>
      if s.Reachable then some {(s.send .log (some message)) with thread := .clearing rest} else none
    | _ => none
  | .send thread message => if s.Reachable then some (s.send (.thread thread) (some message)) else none
  | .flush thread => if s.Reachable then some (s.send (.thread thread) none) else none
  | .stop thread =>
    if s.stop = .idle then some {s with running := false,stop := .stopping thread} else none
  | .notice logLevel timestamp =>
    match s.stop with
    | .stopping thread =>
      let noticed := if logLevel.value < LogLevel.notice.value then s
        else s.send (.thread thread) (some ⟨"stopping",timestamp,.notice,0⟩)
      some {noticed with stop := .routines thread s.cyclicTasks}
    | _ => none
  | .routine =>
    match s.stop with
    | .routines thread (first :: rest) =>
      let called := match first with
        | .flushLogs => s.send (.thread thread) none
        | .clearLogs => s.send (.thread thread) (some clearRequest)
        | .other => s
      some {called with stop := .routines thread rest}
    | _ => none
  | .sentinel =>
    match s.stop with
    | .routines thread [] => some {(s.send (.thread thread) none) with stop := .joining}
    | _ => none
  | .join => if s.stop = .joining ∧ s.thread = .exited then some {s with stop := .joined} else none

def start (handlers : Nat) (cyclicTasks : List Routine) : LogDaemon :=
  {cyclicTasks,log := {handlers := List.replicate (handlers + 1) []}}

end LogDaemon

def undelayed (messages : List LogMessage) : List LogMessage :=
  messages.filter fun message => !decide message.Delayed

@[simp] theorem undelayed_append (messages others : List LogMessage) :
    undelayed (messages ++ others) = undelayed messages ++ undelayed others := by
  simp [undelayed]

@[simp] theorem undelayed_nil : undelayed [] = [] := rfl

theorem undelayed_eq_nil {messages : List LogMessage} :
    undelayed messages = [] ↔ ∀ message ∈ messages, message.Delayed := by
  simp [undelayed]

namespace LogDaemon

/-- Every handler got, of each thread, the undelayed messages it sent, in its order. -/
def Delivered (s : LogDaemon) : Prop :=
  ∀ received ∈ s.log.handlers, ∀ producer,
    undelayed (lane producer received) = undelayed (lane producer s.sent)

def underway (s : LogDaemon) (producer : Producer) : List LogMessage :=
  undelayed (lane producer s.log.messages) ++ undelayed (List.reduceOption (lane producer s.log.queue.pending))

/-- The handlers agree, and what they lack is under way. -/
def Conserved (s : LogDaemon) : Prop :=
  ∃ count received, s.log.handlers = List.replicate (count + 1) received ∧
    ∀ producer, undelayed (lane producer received) ++ s.underway producer =
      undelayed (lane producer s.sent)

/-- The loop ends with no undelayed message in its buffer or in the queue, and none is
sent once it has ended. -/
def Drains (s : LogDaemon) : Action → Prop
  | .test => s.running = false → (∀ entry ∈ s.log.messages, entry.2.Delayed) ∧
      ∀ entry ∈ s.log.queue.pending, ∀ message ∈ entry.2, message.Delayed
  | .send _ message => s.thread = .exited → message.Delayed
  | .notice logLevel _ => s.thread = .exited → logLevel.value < LogLevel.notice.value
  | _ => True

instance (s : LogDaemon) (action : Action) : Decidable (s.Drains action) := by
  unfold Drains
  split <;> infer_instance

theorem underway_eq_nil {s : LogDaemon} : (∀ producer, s.underway producer = []) ↔
    (∀ entry ∈ s.log.messages, entry.2.Delayed) ∧
      ∀ entry ∈ s.log.queue.pending, ∀ message ∈ entry.2, message.Delayed := by
  simp only [underway,List.append_eq_nil_iff,undelayed_eq_nil,List.reduceOption_mem_iff,mem_lane]
  constructor
  · intro all
    refine ⟨fun entry member => (all entry.1).1 entry.2 member,?_⟩
    intro entry member message some'
    have placed : (entry.1,some message) ∈ s.log.queue.pending := by
      rwa [← Option.mem_def.mp some']
    exact (all entry.1).2 message placed
  · intro both producer
    obtain ⟨buffered,queued⟩ := both
    exact ⟨fun message member => buffered _ member,fun message member => queued _ member message rfl⟩

theorem Conserved.delivered_iff {s : LogDaemon} (conserved : s.Conserved) :
    s.Delivered ↔ ∀ producer, s.underway producer = [] := by
  obtain ⟨count,received,agree,whole⟩ := conserved
  have single : s.Delivered ↔
      ∀ producer, undelayed (lane producer received) = undelayed (lane producer s.sent) := by
    simp [Delivered,agree]
  rw [single]
  refine forall_congr' fun producer => ?_
  rw [← whole producer]
  exact List.self_eq_append_right

theorem send_underway (s : LogDaemon) (producer owner : Producer) (item : LogItem) :
    (s.send owner item).underway producer =
      s.underway producer ++ undelayed (lane producer (item.map fun message => (owner,message)).toList) := by
  have added : (lane producer [(owner,item)]).reduceOption =
      lane producer (item.map fun message => (owner,message)).toList := by
    cases item with
    | none => by_cases same : owner = producer <;> simp [lane_singleton,same]
    | some message => by_cases same : owner = producer <;> simp [lane_singleton,same]
  simp [underway,LogDaemon.send,LogInstance.enqueue,Channel.enqueue,List.reduceOption_append,added]

theorem Conserved.send {s : LogDaemon} (conserved : s.Conserved) (producer : Producer) (item : LogItem) :
    (s.send producer item).Conserved := by
  obtain ⟨count,received,agree,whole⟩ := conserved
  refine ⟨count,received,agree,fun other => ?_⟩
  rw [send_underway,← List.append_assoc,whole other]
  simp [LogDaemon.send]

theorem lane_delayed {entries : List (Producer × LogMessage)} (delayed : ∀ entry ∈ entries, entry.2.Delayed)
    (producer : Producer) : undelayed (lane producer entries) = [] :=
  undelayed_eq_nil.mpr fun message member => delayed (producer,message) (mem_lane.mp member)

theorem lane_some (producer owner : Producer) (message : LogMessage) :
    List.reduceOption (lane producer [(owner,some message)]) = lane producer [(owner,message)] := by
  by_cases owned : owner = producer <;> simp [lane_singleton,owned]

theorem Conserved.buffered {s : LogDaemon} (conserved : s.Conserved) {entry : Producer × LogItem}
    {queue : Channel Producer LogItem} {passed : List (Producer × LogMessage)}
    (taken : ∀ other, lane other s.log.queue.pending = lane other [entry] ++ lane other queue.pending)
    (same : ∀ other, undelayed (lane other passed) = undelayed (List.reduceOption (lane other [entry])))
    (delayStorage : SortedMap String DelayValue) (thread : LogThread) :
    Conserved {s with
      log := {s.log with messages := s.log.messages ++ passed,delayStorage := delayStorage,queue := queue}
      thread := thread} := by
  obtain ⟨count,received,agree,whole⟩ := conserved
  refine ⟨count,received,agree,fun other => ?_⟩
  rw [← whole other]
  simp [underway,taken,same,List.reduceOption_append]

theorem Conserved.flushed {s : LogDaemon} (conserved : s.Conserved) {producer : Producer}
    {queue : Channel Producer LogItem}
    (taken : ∀ other, lane other s.log.queue.pending = lane other [(producer,none)] ++ lane other queue.pending) :
    Conserved {s with log := {s.log with queue := queue}.onLog,thread := .test} := by
  obtain ⟨count,received,agree,whole⟩ := conserved
  refine ⟨count,received ++ s.log.messages,by simp [LogInstance.onLog,agree],fun other => ?_⟩
  have marker : List.reduceOption (lane other [(producer,(none : LogItem))]) = [] := by
    by_cases owned : producer = other <;> simp [lane_singleton,owned]
  rw [← whole other]
  simp [underway,LogInstance.onLog,taken,List.reduceOption_append,marker]

theorem Conserved.handle {s next : LogDaemon} {producer : Producer} {now : Int}
    {order : List LogMessage} {item : LogItem} {queue : Channel Producer LogItem} (conserved : s.Conserved)
    (taken : ∀ other, lane other s.log.queue.pending = lane other [(producer,item)] ++ lane other queue.pending)
    (handled : ({s with log := {s.log with queue := queue}} : LogDaemon).handle producer now order item = some next) :
    next.Conserved ∧ next.thread ≠ .exited ∧ next.stop = s.stop := by
  cases item with
  | none =>
    cases Option.some.inj handled
    exact ⟨conserved.flushed taken,by simp,rfl⟩
  | some message =>
    simp only [LogDaemon.handle] at handled
    split at handled
    next =>
      cases Option.some.inj handled
      refine ⟨@Conserved.buffered s conserved _ queue [(producer,message)] taken ?_ _ _,by simp,rfl⟩
      intro other
      rw [lane_some]
    next delayed =>
      -- Whatever becomes of a delayed message, nothing undelayed is kept or lost.
      have dropped : ∀ passed : List (Producer × LogMessage), (∀ entry ∈ passed, entry.2.Delayed) →
          ∀ other, undelayed (lane other passed) =
            undelayed (List.reduceOption (lane other [(producer,some message)])) := by
        intro passed late other
        rw [lane_some,lane_delayed late,lane_delayed (by simpa [LogMessage.Delayed] using delayed)]
      split at handled
      next =>
        split at handled
        next =>
          cases Option.some.inj handled
          refine ⟨?_,by simp,rfl⟩
          simpa using conserved.buffered taken (dropped [] (by simp)) _ (.clearing order)
        next => contradiction
      next =>
        cases Option.some.inj handled
        refine ⟨?_,by simp,rfl⟩
        cases outcome : (LogInstance.delay s.log.delayStorage message).2 with
        | none => simpa using conserved.buffered taken (dropped [] (by simp)) _ .test
        | some passed =>
          have late : passed.Delayed := by
            rw [LogMessage.Delayed,LogInstance.delay_kept s.log.delayStorage message passed outcome]
            exact delayed
          exact conserved.buffered taken (dropped [(producer,passed)] (by simpa using late)) _ .test

theorem step_cases {s next : LogDaemon} {action : Action} (stepped : s.step action = some next) :
    (∃ running thread stop, next = {s with running := running,thread := thread,stop := stop} ∧
        (thread = .exited ↔ s.thread = .exited) ∧
        (stop = .joined → s.stop = .joined ∨ s.thread = .exited) ∧ s.Drains action) ∨
      (action = .test ∧ s.thread = .test ∧ s.running = false ∧ next = {s with thread := .exited}) ∨
      (∃ producer item thread stop, next = {s.send producer item with thread := thread,stop := stop} ∧
        (thread = .exited ↔ s.thread = .exited) ∧ (stop = .joined → s.stop = .joined) ∧
        (s.Drains action ↔ (s.thread = .exited → ∀ message ∈ item, message.Delayed))) ∨
      ∃ place now order taken, action = .take place now order ∧ s.thread = .waiting ∧
        s.log.queue.dequeue place = some taken ∧
        ({s with log := {s.log with queue := taken.2}} : LogDaemon).handle taken.1.1 now order taken.1.2 =
          some next := by
  cases action with
  | test =>
    simp only [step] at stepped
    split at stepped
    next testing =>
      cases Option.some.inj stepped
      cases running : s.running with
      | true => exact .inl ⟨true,.waiting,s.stop,by simp,by simp [testing],.inl,by simp [Drains,running]⟩
      | false => exact .inr (.inl ⟨rfl,testing,rfl,by simp⟩)
    next => contradiction
  | take place now order =>
    simp only [step] at stepped
    split at stepped
    next waiting =>
      obtain ⟨taken,dequeued,handled⟩ := Option.bind_eq_some_iff.mp stepped
      exact .inr (.inr (.inr ⟨place,now,order,taken,rfl,waiting,dequeued,handled⟩))
    next => contradiction
  | clear =>
    simp only [step] at stepped
    split at stepped
    next clearing =>
      cases Option.some.inj stepped
      exact .inl ⟨s.running,.test,s.stop,rfl,by simp [clearing],.inl,trivial⟩
    next message rest clearing =>
      split at stepped
      next =>
        cases Option.some.inj stepped
        exact .inr (.inr (.inl
          ⟨_,_,.clearing rest,s.stop,rfl,by simp [clearing],id,by simp [Drains,clearing]⟩))
      next => contradiction
    next => contradiction
  | send thread message =>
    simp only [step] at stepped
    split at stepped
    next =>
      cases Option.some.inj stepped
      exact .inr (.inr (.inl ⟨_,_,s.thread,s.stop,rfl,.rfl,id,by simp [Drains]⟩))
    next => contradiction
  | flush thread =>
    simp only [step] at stepped
    split at stepped
    next =>
      cases Option.some.inj stepped
      exact .inr (.inr (.inl ⟨_,_,s.thread,s.stop,rfl,.rfl,id,by simp [Drains]⟩))
    next => contradiction
  | stop thread =>
    simp only [step] at stepped
    split at stepped
    next =>
      cases Option.some.inj stepped
      exact .inl ⟨false,s.thread,.stopping thread,rfl,.rfl,by simp,trivial⟩
    next => contradiction
  | notice logLevel timestamp =>
    simp only [step] at stepped
    split at stepped
    next thread _ =>
      cases Option.some.inj stepped
      split
      next quiet => exact .inl ⟨s.running,s.thread,_,rfl,.rfl,by simp,fun _ => quiet⟩
      next loud =>
        exact .inr (.inr (.inl ⟨_,_,s.thread,_,rfl,.rfl,by simp,by simp [Drains,loud,LogMessage.Delayed]⟩))
    next => contradiction
  | routine =>
    simp only [step] at stepped
    split at stepped
    next thread first rest _ =>
      cases Option.some.inj stepped
      cases first with
      | flushLogs => exact .inr (.inr (.inl ⟨_,_,s.thread,_,rfl,.rfl,by simp,by simp [Drains]⟩))
      | clearLogs =>
        have delayed : clearRequest.Delayed := by decide
        exact .inr (.inr (.inl ⟨_,_,s.thread,_,rfl,.rfl,by simp,by simp [Drains,delayed]⟩))
      | other => exact .inl ⟨s.running,s.thread,_,rfl,.rfl,by simp,trivial⟩
    next => contradiction
  | sentinel =>
    simp only [step] at stepped
    split at stepped
    next thread _ =>
      cases Option.some.inj stepped
      exact .inr (.inr (.inl ⟨_,_,s.thread,_,rfl,.rfl,by simp,by simp [Drains]⟩))
    next => contradiction
  | join =>
    simp only [step] at stepped
    split at stepped
    next ended =>
      cases Option.some.inj stepped
      exact .inl ⟨s.running,s.thread,.joined,rfl,.rfl,fun _ => .inr ended.2,trivial⟩
    next => contradiction

theorem step_conserved {s next : LogDaemon} {action : Action} (conserved : s.Conserved)
    (stepped : s.step action = some next) : next.Conserved := by
  rcases step_cases stepped with ⟨_,_,_,rfl,_⟩ | ⟨_,_,_,rfl⟩ | ⟨producer,item,_,_,rfl,_⟩ |
    ⟨_,_,_,_,_,_,dequeued,handled⟩
  · exact conserved
  · exact conserved
  · exact conserved.send producer item
  · exact (conserved.handle (Channel.lane_dequeue dequeued) handled).1

def Lossless (s : LogDaemon) : Prop := s.thread = .exited → s.Delivered

theorem Conserved.send_delivered {s : LogDaemon} (conserved : s.Conserved) (producer : Producer)
    (item : LogItem) :
    (s.send producer item).Delivered ↔ s.Delivered ∧ ∀ message ∈ item, message.Delayed := by
  rw [(conserved.send producer item).delivered_iff,conserved.delivered_iff]
  simp only [send_underway,List.append_eq_nil_iff,forall_and,undelayed_eq_nil]
  refine and_congr_right fun _ => ?_
  cases item with
  | none => simp
  | some message => simp [lane_singleton]

theorem step_lossless {s next : LogDaemon} {action : Action} (conserved : s.Conserved)
    (stepped : s.step action = some next) : next.Lossless ↔ s.Lossless ∧ s.Drains action := by
  rcases step_cases stepped with ⟨running,thread,stop,rfl,same,_,drains⟩ | ⟨rfl,testing,ended,rfl⟩ |
    ⟨producer,item,thread,stop,rfl,same,_,drains⟩ | ⟨_,_,_,_,rfl,waiting,dequeued,handled⟩
  · simp [Lossless,Delivered,same,drains]
  · have quiet : s.Lossless := by simp [Lossless,testing]
    have exact' : Lossless {s with thread := .exited} ↔ s.Delivered := by simp [Lossless,Delivered]
    rw [exact',conserved.delivered_iff,underway_eq_nil]
    simp [quiet,Drains,ended]
  · have after : Lossless {s.send producer item with thread := thread,stop := stop} ↔
        (s.thread = .exited → (s.send producer item).Delivered) := by
      simp [Lossless,Delivered,same]
    rw [after,drains,conserved.send_delivered,Lossless]
    exact imp_and
  · have going := (conserved.handle (Channel.lane_dequeue dequeued) handled).2.1
    simp [Lossless,going,waiting,Drains]

theorem run_conserved {handlers : Nat} {cyclicTasks : List Routine} {s : LogDaemon}
    (run : Run step Always (start handlers cyclicTasks) s) :
    s.Conserved ∧ (s.stop = .joined → s.thread = .exited) := by
  refine @Run.invariant _ _ _ _ _ s
    (fun s => s.Conserved ∧ (s.stop = .joined → s.thread = .exited)) run ?_ ?_
  · exact ⟨⟨handlers,[],rfl,by simp [underway,start]⟩,by simp [start]⟩
  · intro state next action _ kept _ stepped
    obtain ⟨conserved,ended⟩ := kept
    refine ⟨step_conserved conserved stepped,?_⟩
    rcases step_cases stepped with ⟨running,thread,stop,rfl,same,before,_⟩ | ⟨_,_,_,rfl⟩ |
      ⟨producer,item,thread,stop,rfl,same,before,_⟩ | ⟨_,_,_,_,rfl,waiting,dequeued,handled⟩
    · intro joined
      exact same.mpr ((before joined).elim ended id)
    · simp
    · intro joined
      exact same.mpr (ended (before joined))
    · intro joined
      rw [(conserved.handle (Channel.lane_dequeue dequeued) handled).2.2] at joined
      simp [ended joined] at waiting

/-- Where the log thread was joined, every handler has every undelayed message exactly
when each step of the history drained. -/
theorem log_delivered_iff (handlers : Nat) (cyclicTasks : List Routine) (actions : List Action) (s : LogDaemon)
    (ran : execute step Always actions (start handlers cyclicTasks) = some s) (joined : s.stop = .joined) :
    s.Delivered ↔ execute step Drains actions (start handlers cyclicTasks) = some s := by
  have exactly : s.Lossless ↔ Lossless (start handlers cyclicTasks) ∧
      execute step Drains actions (start handlers cyclicTasks) = some s :=
    execute_iff (fun _ _ _ run stepped => step_lossless (run_conserved run).1 stepped) .start actions ran
  have ended := (run_conserved (run_of_execute .start actions ran)).2 joined
  have lossless : s.Lossless ↔ s.Delivered := by simp [Lossless,ended]
  have first : Lossless (start handlers cyclicTasks) := by simp [Lossless,start]
  rw [← lossless,exactly]
  exact and_iff_right first

theorem delivered_flushed : ∃ s : LogDaemon, s.stop = .joined ∧ s.sent.length = 2 ∧ s.Delivered := by
  obtain ⟨s,ran,good⟩ := (Option.any_eq_true _ _).mp
    (by decide : (execute step Drains
      [.send 1 ⟨"a",5,.info,0⟩,.test,.take 0 0 [],.send 2 ⟨"b",6,.error,0⟩,.test,.take 0 0 [],.flush 3,.test,
        .take 0 0 [],.test,.stop 0,.notice .error 7,.routine,.take 0 0 [],.test,.sentinel,.join]
      (start 1 [.flushLogs])).any
        (fun s => decide (s.stop = .joined) && s.sent.length == 2) = true)
  simp only [Bool.and_eq_true,decide_eq_true_eq,beq_iff_eq] at good
  exact ⟨s,good.1,good.2,(log_delivered_iff 1 [.flushLogs] _ s (execute_always _ ran) good.1).mpr ran⟩

theorem message_lost : ¬∀ (handlers : Nat) (cyclicTasks : List Routine) (s : LogDaemon),
    Run step Always (start handlers cyclicTasks) s → s.stop = .joined → s.Delivered := by
  intro delivered
  obtain ⟨s,run,lost⟩ := exists_run step Always (start 0 [.clearLogs,.flushLogs])
    (fun s : LogDaemon => decide (s.stop = .joined) && decide (s.log.handlers = [[]]) &&
      decide (s.sent = [(.thread 1,⟨"done",5,.info,0⟩)] ++ s.sent.tail))
    [.test,.send 1 ⟨"done",5,.info,0⟩,.stop 0,.notice .info 6,.routine,.routine,.take 0 0 [],.test,
      .sentinel,.join] (by decide)
  simp only [Bool.and_eq_true,decide_eq_true_eq] at lost
  obtain ⟨⟨joined,empty⟩,first⟩ := lost
  have none := delivered 0 _ s run joined [] (by simp [empty]) (.thread 1)
  rw [first,lane_append,undelayed_append] at none
  simp [lane_singleton,undelayed,LogMessage.Delayed] at none

end LogDaemon
end Call45Aggr
