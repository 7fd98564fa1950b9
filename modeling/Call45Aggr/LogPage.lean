import Call45Aggr.LogFiles
import Call45Aggr.RingBuffer

/-! The log page of the web server: which messages it shows, and what is left of them in the text
that it is written as. -/
namespace Call45Aggr
open Library

/-- `boost::replace_all` for one character. -/
def replaceAll (c : Char) (written : String) (text : List Char) : List Char :=
  text.flatMap fun x => if x = c then written.toList else [x]

def escaped (text : List Char) : List Char := replaceAll '>' "&gt" (replaceAll '<' "&lt" text)

/-- Both replacements undone. -/
def unescaped : List Char → List Char
  | '&' :: 'l' :: 't' :: rest => '<' :: unescaped rest
  | '&' :: 'g' :: 't' :: rest => '>' :: unescaped rest
  | c :: rest => c :: unescaped rest
  | [] => []

/-- The ampersand is not escaped, so what the text has of this is taken for a replacement. -/
def Ambiguous (text : List Char) : Prop := "&lt".toList <:+: text ∨ "&gt".toList <:+: text

theorem escaped_cons (c : Char) (text : List Char) : escaped (c :: text) =
    (if c = '<' then "&lt".toList else if c = '>' then "&gt".toList else [c]) ++ escaped text := by
  have first : replaceAll '<' "&lt" (c :: text) =
      (if c = '<' then "&lt".toList else [c]) ++ replaceAll '<' "&lt" text := List.flatMap_cons
  rw [escaped,first,replaceAll,List.flatMap_append]
  by_cases less : c = '<'
  · subst less
    rfl
  by_cases greater : c = '>'
  · subst greater
    rfl
  · rw [if_neg less,if_neg less,if_neg greater,List.flatMap_singleton,if_neg greater]
    rfl

theorem escaped_plain {c : Char} (text : List Char) (less : c ≠ '<') (greater : c ≠ '>') :
    escaped (c :: text) = c :: escaped text := by
  rw [escaped_cons,if_neg less,if_neg greater]
  rfl

theorem mem_escaped {c : Char} {text : List Char} (member : c ∈ escaped text) : c ≠ '<' ∧ c ≠ '>' := by
  have lt : ∀ x ∈ "&lt".toList, x ≠ '<' ∧ x ≠ '>' := by simp
  have gt : ∀ x ∈ "&gt".toList, x ≠ '<' ∧ x ≠ '>' := by simp
  induction text with
  | nil => exact absurd member List.not_mem_nil
  | cons x text ih =>
    rw [escaped_cons] at member
    rcases List.mem_append.mp member with here | later
    · split_ifs at here with less greater
      · exact lt c here
      · exact gt c here
      · rw [List.mem_singleton.mp here]
        exact ⟨less,greater⟩
    · exact ih later

/-- A character other than the ampersand begins an escaped text where it begins the text. -/
theorem escaped_eq_cons {text rest : List Char} {c : Char} (begins : escaped text = c :: rest) (other : c ≠ '&') :
    ∃ more, text = c :: more ∧ rest = escaped more := by
  cases text with
  | nil => contradiction
  | cons x text =>
    rw [escaped_cons] at begins
    split_ifs at begins with less greater
    · exact absurd (List.cons.inj begins).1.symm other
    · exact absurd (List.cons.inj begins).1.symm other
    · obtain ⟨rfl,rfl⟩ := List.cons.inj begins
      exact ⟨text,rfl,rfl⟩

theorem ambiguous_cons {c : Char} {text : List Char} :
    Ambiguous (c :: text) ↔ "&lt".toList <+: c :: text ∨ "&gt".toList <+: c :: text ∨ Ambiguous text := by
  rw [Ambiguous,Ambiguous,List.infix_cons_iff,List.infix_cons_iff]
  tauto

theorem ambiguous_other {c : Char} {text : List Char} (other : c ≠ '&') :
    Ambiguous (c :: text) ↔ Ambiguous text := by
  have prefixes (rest : List Char) : ¬('&' :: rest) <+: c :: text := fun before =>
    other (List.cons_prefix_cons.mp before).1.symm
  rw [ambiguous_cons]
  exact ⟨fun any => (any.resolve_left (prefixes _)).resolve_left (prefixes _),fun later => .inr (.inr later)⟩

theorem unescaped_other {c : Char} (rest : List Char) (other : c ≠ '&') :
    unescaped (c :: rest) = c :: unescaped rest := by
  rw [unescaped]
  · rintro _ same _
    exact other same
  · rintro _ same _
    exact other same

theorem unescaped_ampersand {text : List Char} (lt : ∀ more, text ≠ 'l' :: 't' :: more)
    (gt : ∀ more, text ≠ 'g' :: 't' :: more) :
    unescaped ('&' :: escaped text) = '&' :: unescaped (escaped text) := by
  have second {c : Char} {rest : List Char} (other : c ≠ '&') (begins : escaped text = c :: 't' :: rest) :
      ∃ more, text = c :: 't' :: more := by
    obtain ⟨more,rfl,tail⟩ := escaped_eq_cons begins other
    obtain ⟨last,rfl,_⟩ := escaped_eq_cons tail.symm (by decide)
    exact ⟨last,rfl⟩
  rw [unescaped]
  · intro rest _ begins
    obtain ⟨more,whole⟩ := second (by decide) begins
    exact lt more whole
  · intro rest _ begins
    obtain ⟨more,whole⟩ := second (by decide) begins
    exact gt more whole

/-- The text comes back just when nothing of it looks like a replacement. -/
theorem unescaped_escaped_iff (text : List Char) : unescaped (escaped text) = text ↔ ¬Ambiguous text := by
  induction text with
  | nil =>
    refine iff_of_true rfl ?_
    rintro (absent | absent) <;> simp at absent
  | cons c text ih =>
    by_cases less : c = '<'
    · subst less
      rw [ambiguous_other (by decide),← ih]
      exact List.cons_eq_cons.trans (and_iff_right rfl)
    by_cases greater : c = '>'
    · subst greater
      rw [ambiguous_other (by decide),← ih]
      exact List.cons_eq_cons.trans (and_iff_right rfl)
    rw [escaped_plain text less greater]
    by_cases other : c = '&'
    · subst other
      by_cases lt : ∃ more, text = 'l' :: 't' :: more
      · obtain ⟨more,rfl⟩ := lt
        refine iff_of_false ?_ (not_not.mpr (.inl ⟨[],more,rfl⟩))
        exact fun same => absurd (List.cons.inj same).1 (by decide)
      by_cases gt : ∃ more, text = 'g' :: 't' :: more
      · obtain ⟨more,rfl⟩ := gt
        refine iff_of_false ?_ (not_not.mpr (.inr ⟨[],more,rfl⟩))
        exact fun same => absurd (List.cons.inj same).1 (by decide)
      have apart (x : Char) (absent : ¬∃ more, text = x :: 't' :: more) : ¬['&',x,'t'] <+: '&' :: text := by
        rintro ⟨more,whole⟩
        exact absent ⟨more,(List.cons.inj whole).2.symm⟩
      rw [unescaped_ampersand (not_exists.mp lt) (not_exists.mp gt),List.cons_eq_cons,and_iff_right rfl,ih,
        ambiguous_cons]
      exact not_congr ⟨fun later => .inr (.inr later),fun any =>
        (any.resolve_left (apart 'l' lt)).resolve_left (apart 'g' gt)⟩
    · rw [unescaped_other _ other,ambiguous_other other,List.cons_eq_cons,and_iff_right rfl,ih]

/-- What `loop` keeps of an item of the queue. -/
def LogInstance.passes (storage : SortedMap String DelayValue) : LogItem → Option LogMessage
  | none => none
  | some message =>
    if message.delayInSeconds = 0 then some message
    else if message.delayInSeconds = maxDelay then none
    else (delay storage message).2

theorem LogDaemon.handle_log {s next : LogDaemon} {producer : Producer} {now : Int} {order : List LogMessage}
    {item : LogItem} (handled : s.handle producer now order item = some next) :
    (LogInstance.passes s.log.delayStorage item = none ∧
        next.log.handlers = s.log.handlers.map (· ++ s.log.messages) ∧ next.log.messages = []) ∨
      next.log.handlers = s.log.handlers ∧ next.log.messages =
        s.log.messages ++
          ((LogInstance.passes s.log.delayStorage item).map fun message => (producer,message)).toList := by
  cases item with
  | none =>
    cases Option.some.inj handled
    exact .inl ⟨rfl,rfl,rfl⟩
  | some message =>
    right
    simp only [LogDaemon.handle] at handled
    rw [LogInstance.passes]
    split at handled
    next undelayed =>
      cases Option.some.inj handled
      rw [if_pos undelayed]
      exact ⟨rfl,rfl⟩
    next delayed =>
      rw [if_neg delayed]
      split at handled
      next clears =>
        rw [if_pos clears]
        split at handled
        next =>
          cases Option.some.inj handled
          exact ⟨rfl,(List.append_nil _).symm⟩
        next => contradiction
      next regular =>
        rw [if_neg regular]
        cases Option.some.inj handled
        cases (LogInstance.delay s.log.delayStorage message).2 with
        | none => exact ⟨rfl,(List.append_nil _).symm⟩
        | some passed => exact ⟨rfl,rfl⟩

/-- The daemon with the messages that the page shows. -/
structure ShownLog where
  daemon : LogDaemon
  lastMessages : RingBuffer (Producer × LogMessage) 200

namespace ShownLog

def passed (daemon : LogDaemon) : LogDaemon.Action → Option (Producer × LogMessage)
  | .take place _ _ => (daemon.log.queue.dequeue place).bind fun taken =>
    (LogInstance.passes daemon.log.delayStorage taken.1.2).map fun message => (taken.1.1,message)
  | _ => none

def step (s : ShownLog) (action : LogDaemon.Action) : Option ShownLog :=
  (s.daemon.step action).map fun daemon => {
    daemon
    lastMessages := (passed s.daemon action).elim s.lastMessages s.lastMessages.push}

def start (handlers : Nat) (cyclicTasks : List Routine) (buffer : Vector (Producer × LogMessage) 200) : ShownLog where
  daemon := .start handlers cyclicTasks
  lastMessages := .clear (by decide) buffer

/-- `last_messages`, the newest first. -/
def shown (s : ShownLog) : List (Producer × LogMessage) := s.lastMessages.copyTo.reverse

/-- The ring has the newest of what the handlers got or get at the next flush. -/
def Agrees (s : ShownLog) : Prop :=
  ∃ count received, s.daemon.log.handlers = List.replicate (count + 1) received ∧
    s.lastMessages.copyTo = (received ++ s.daemon.log.messages).rtake 200

theorem rtake_push {α : Type} {S : Nat} (ring : RingBuffer α S) {items : List α} (same : ring.copyTo = items.rtake S)
    (x : α) : (ring.push x).copyTo = (items ++ [x]).rtake S := by
  rw [RingBuffer.copyTo_push,same]
  cases S with
  | zero => simp
  | succ size =>
    rw [List.rtake_concat_succ,List.rtake_concat_succ,List.rtake_eq_reverse_take_reverse,
      List.rtake_eq_reverse_take_reverse,List.rtake_eq_reverse_take_reverse,List.reverse_reverse,List.take_take,
      Nat.min_eq_left (Nat.le_succ size)]

theorem start_agrees (handlers : Nat) (cyclicTasks : List Routine) (buffer : Vector (Producer × LogMessage) 200) :
    (start handlers cyclicTasks buffer).Agrees := by
  refine ⟨handlers,[],rfl,?_⟩
  rw [start,RingBuffer.copyTo_clear]
  exact (List.rtake_nil 200).symm

theorem take_agrees {s next : ShownLog} {place : Nat} {now : Int} {order : List LogMessage} (agrees : s.Agrees)
    (stepped : s.step (.take place now order) = some next) : next.Agrees := by
  obtain ⟨daemon,moved,rfl⟩ := Option.map_eq_some_iff.mp stepped
  obtain ⟨count,received,agree,newest⟩ := agrees
  simp only [LogDaemon.step] at moved
  split at moved
  next =>
    obtain ⟨taken,dequeued,handled⟩ := Option.bind_eq_some_iff.mp moved
    have kept : passed s.daemon (.take place now order) =
        (LogInstance.passes s.daemon.log.delayStorage taken.1.2).map fun message => (taken.1.1,message) := by
      rw [passed,dequeued]
      rfl
    rcases LogDaemon.handle_log handled with ⟨nothing,handlers,messages⟩ | ⟨handlers,messages⟩
    · have idle : passed s.daemon (.take place now order) = none := kept.trans (congrArg (Option.map _) nothing)
      refine ⟨count,received ++ s.daemon.log.messages,?_,?_⟩
      · rw [handlers,agree,List.map_replicate]
      · rw [idle,messages,List.append_nil]
        exact newest
    · have grown : daemon.log.messages = s.daemon.log.messages ++ ((LogInstance.passes s.daemon.log.delayStorage
          taken.1.2).map fun message => (taken.1.1,message)).toList := messages
      refine ⟨count,received,handlers.trans agree,?_⟩
      rw [kept,grown,← List.append_assoc]
      cases LogInstance.passes s.daemon.log.delayStorage taken.1.2 with
      | none =>
        rw [Option.map_none,Option.toList_none,List.append_nil]
        exact newest
      | some message => exact rtake_push s.lastMessages newest (taken.1.1,message)
  next => contradiction

theorem step_agrees {s next : ShownLog} {action : LogDaemon.Action} (agrees : s.Agrees)
    (stepped : s.step action = some next) : next.Agrees := by
  by_cases takes : ∃ place now order, action = .take place now order
  · obtain ⟨place,now,order,rfl⟩ := takes
    exact take_agrees agrees stepped
  · obtain ⟨daemon,moved,rfl⟩ := Option.map_eq_some_iff.mp stepped
    have none : passed s.daemon action = none := by
      cases action with
      | take place now order => exact absurd ⟨place,now,order,rfl⟩ takes
      | _ => rfl
    rw [none]
    rcases LogDaemon.step_cases moved with ⟨_,_,_,rfl,_⟩ | ⟨_,_,_,rfl⟩ | ⟨_,_,_,_,rfl,_⟩ |
      ⟨place,now,order,_,same,_⟩
    · exact agrees
    · exact agrees
    · exact agrees
    · exact absurd ⟨place,now,order,same⟩ takes

def filed (names : Producer → String) (entry : Producer × LogMessage) : FiledMessage :=
  {entry.2 with threadName := names entry.1,destination := .any}

/-- The text between `<pre>` and `</pre>` before its replacements. -/
def plain (names : Producer → String) (s : ShownLog) : List Char :=
  terminated '\n' (s.shown.map fun entry => (filed names entry).line)

/-- In every run the page shows the newest two hundred of the messages that each handler has or gets
with the next flush. What is written has no markup, its replacements can be undone where the text
has nothing like them, and then the messages shown are read back from it if all are readable. -/
theorem page_shows_newest (handlers : Nat) (cyclicTasks : List Routine)
    (buffer : Vector (Producer × LogMessage) 200) (s : ShownLog)
    (run : Run step Always (start handlers cyclicTasks buffer) s) (names : Producer → String) :
    (∀ received ∈ s.daemon.log.handlers,
      s.shown = ((received ++ s.daemon.log.messages).rtake 200).reverse) ∧
    (∀ c ∈ escaped (s.plain names), c ≠ '<' ∧ c ≠ '>') ∧
    (unescaped (escaped (s.plain names)) = s.plain names ↔ ¬Ambiguous (s.plain names)) ∧
    ((∀ entry ∈ s.shown, (filed names entry).Readable) → ¬Ambiguous (s.plain names) →
      readLog (unescaped (escaped (s.plain names))) = s.shown.map fun entry => (filed names entry).entry) := by
  have agrees : s.Agrees := run.invariant (start_agrees handlers cyclicTasks buffer)
    fun _ _ _ _ agrees _ stepped => step_agrees agrees stepped
  obtain ⟨count,received,agree,newest⟩ := agrees
  refine ⟨?_,fun c member => mem_escaped member,unescaped_escaped_iff _,?_⟩
  · intro other member
    rw [agree] at member
    rw [(List.mem_replicate.mp member).2,shown,newest]
  · intro readable plain
    rw [(unescaped_escaped_iff _).mpr plain]
    have lines := @readLog_lines (s.shown.map (filed names)) (List.forall_mem_map.mpr readable)
    rw [List.map_map,List.map_map] at lines
    exact lines

def noted : LogMessage := ⟨"leg <1>",951827696,.notice,0⟩

theorem page_shows_newest_noted : ∃ s : ShownLog, s.daemon.log.messages.length = 1 ∧
    s.shown = (s.daemon.log.messages.rtake 200).reverse := by
  let buffer : Vector (Producer × LogMessage) 200 := Vector.replicate 200 (.log,clearRequest)
  obtain ⟨s,run,good⟩ := exists_run step Always (start 0 [] buffer)
    (fun s => s.daemon.log.messages.length == 1 && s.daemon.log.handlers == [[]])
    [.send 0 noted,.test,.take 0 0 []] (by decide)
  simp only [Bool.and_eq_true,beq_iff_eq] at good
  have shown := (page_shows_newest 0 [] buffer s run fun _ => "main").1 [] (by simp [good.2])
  exact ⟨s,good.1,shown⟩

end ShownLog

end Call45Aggr
