import Call45Aggr.LogInstance
import Mathlib.Algebra.BigOperators.Group.List.Basic
import Mathlib.Algebra.Ring.Nat

/-! What becomes of the messages that ask for a delay: each is counted under its text, and
the count leaves in a message for that text or stays in `delay_storage_`. -/
namespace Call45Aggr
open Library

namespace LogInstance

/-- The texts that clearing sends a message for, with the message. -/
def dues (storage : SortedMap String DelayValue) (now : Int) : List (String × LogMessage) :=
  (storage.entries.filter fun entry => expired now entry.2 && decide (0 < entry.2.count)).map
    fun entry => (entry.1,⟨repeated entry.2.count entry.1,entry.2.lastTimestamp,entry.2.level,0⟩)

theorem dues_summaries (storage : SortedMap String DelayValue) (now : Int) :
    (dues storage now).map Prod.snd = summaries storage now := by
  simp [dues,summaries]

/-- How many messages with the text a message sent for it stands for. -/
def multiplicity (text message : String) : Nat :=
  if message = text then 1
  else Nat.ofDigitChars 10 ((message.toList.drop 2).takeWhile Char.isDigit) 0

theorem repeated_toList (count : Nat) (text : String) (more : count ≠ 1) :
    (repeated count text).toList = ['[','x'] ++ (Nat.toDigits 10 count ++ ']' :: ' ' :: text.toList) := by
  simp [repeated,more]

theorem multiplicity_repeated (count : Nat) (text : String) :
    multiplicity text (repeated count text) = count := by
  by_cases single : count = 1
  · simp [multiplicity,repeated,single]
  · have longer : repeated count text ≠ text := by
      intro same
      have sizes := congrArg List.length (congrArg String.toList same)
      rw [repeated_toList count text single] at sizes
      simp at sizes
      omega
    have digits : ∀ c ∈ Nat.toDigits 10 count, c.isDigit = true :=
      fun _ member => Nat.isDigit_of_mem_toDigits (by decide) (by decide) member
    rw [multiplicity,if_neg longer,repeated_toList count text single]
    simp [List.takeWhile_append_of_pos digits]

def stored (storage : SortedMap String DelayValue) (text : String) : Nat :=
  (storage.find? text).elim 0 DelayValue.count

/-- How many messages with the text the messages sent for it stand for. -/
def emittedFor (emitted : List (String × LogMessage)) (text : String) : Nat :=
  ((emitted.filter fun sent => sent.1 = text).map fun sent => multiplicity text sent.2.message).sum

@[simp] theorem emittedFor_append (emitted others : List (String × LogMessage)) (text : String) :
    emittedFor (emitted ++ others) text = emittedFor emitted text + emittedFor others text := by
  simp [emittedFor]

theorem emittedFor_perm {emitted order : List (String × LogMessage)} (same : order.Perm emitted)
    (text : String) : emittedFor order text = emittedFor emitted text :=
  ((same.filter _).map _).sum_eq

theorem dues_for (storage : SortedMap String DelayValue) (now : Int) (text : String) :
    emittedFor (dues storage now) text =
      (storage.find? text).elim 0 fun value => if expired now value then value.count else 0 := by
  have own : (dues storage now).filter (fun sent => sent.1 = text) =
      ((((storage.find? text).map fun value => (text,value)).toList).filter fun entry =>
        expired now entry.2 && decide (0 < entry.2.count)).map
          fun entry => (entry.1,⟨repeated entry.2.count entry.1,entry.2.lastTimestamp,entry.2.level,0⟩) := by
    rw [← SortedMap.filter_key,List.filter_filter,dues,List.filter_map,List.filter_filter]
    simp only [Function.comp_def,Bool.and_comm]
  rw [emittedFor,own]
  cases storage.find? text with
  | none => simp
  | some value =>
    cases late : expired now value with
    | false => simp [late]
    | true =>
      rcases Nat.eq_zero_or_pos value.count with none | some
      · simp [none]
      · simp [late,some,multiplicity_repeated]

theorem clear_stored (storage : SortedMap String DelayValue) (now : Int) (text : String) :
    emittedFor (dues storage now) text + stored (clearDelayMessages storage now) text = stored storage text := by
  rw [dues_for,stored,stored,clearDelayMessages,SortedMap.find?_filter_eq]
  cases storage.find? text with
  | none => simp
  | some value => cases late : expired now value <;> simp [late,Option.filter_some]

theorem delay_stored (storage : SortedMap String DelayValue) (message : LogMessage) :
    emittedFor ((delay storage message).2.map fun passed => (message.message,passed)).toList message.message +
        stored (delay storage message).1 message.message =
      (stored storage message.message + 1) % 18446744073709551616 := by
  have count : ((storage.find? message.message).getD {level := message.level}).count =
      stored storage message.message := by
    unfold stored
    cases storage.find? message.message <;> rfl
  unfold delay
  dsimp only
  rw [count]
  split
  · simp [emittedFor,stored,multiplicity_repeated]
  · simp [emittedFor,stored]

theorem delay_other (storage : SortedMap String DelayValue) (message : LogMessage) {text : String}
    (other : text ≠ message.message) :
    emittedFor ((delay storage message).2.map fun passed => (message.message,passed)).toList text = 0 ∧
      stored (delay storage message).1 text = stored storage text := by
  unfold delay
  dsimp only
  split <;> simp [emittedFor,stored,other,Ne.symm other]

end LogInstance

/-- The messages `delay_message` counted, and those it and `clear_delay_messages` let out,
with the text each is for. -/
structure DelayHistory where
  storage : SortedMap String DelayValue := .empty
  received : List LogMessage := []
  emitted : List (String × LogMessage) := []

namespace DelayHistory
open LogInstance

inductive Action
  | delay (message : LogMessage)
  | clear (now : Int) (order : List (String × LogMessage))

def step (s : DelayHistory) : Action → Option DelayHistory
  | .delay message =>
    if message.delayInSeconds = 0 ∨ message.delayInSeconds = maxDelay then none
    else
      let (storage,passed) := LogInstance.delay s.storage message
      some {
        storage
        received := s.received ++ [message]
        emitted := s.emitted ++ (passed.map fun passed => (message.message,passed)).toList}
  | .clear now order =>
    if order.isPerm (dues s.storage now) then
      some {s with storage := clearDelayMessages s.storage now,emitted := s.emitted ++ order}
    else none

theorem step_delay (s : DelayHistory) {message : LogMessage}
    (own : ¬(message.delayInSeconds = 0 ∨ message.delayInSeconds = maxDelay)) :
    s.step (.delay message) = some {
      storage := (LogInstance.delay s.storage message).1
      received := s.received ++ [message]
      emitted := s.emitted ++
        ((LogInstance.delay s.storage message).2.map fun passed => (message.message,passed)).toList} :=
  if_neg own

theorem step_clear (s : DelayHistory) (now : Int) :
    s.step (.clear now (dues s.storage now)) = some {s with
      storage := clearDelayMessages s.storage now,emitted := s.emitted ++ dues s.storage now} :=
  if_pos (List.isPerm_iff.mpr (.refl _))

def receivedFor (s : DelayHistory) (text : String) : Nat :=
  s.received.countP fun message => message.message = text

def accounted (s : DelayHistory) (text : String) : Nat := emittedFor s.emitted text + stored s.storage text

/-- What the count, a `size_t`, has wrapped away is a multiple of its range. -/
def Balanced (s : DelayHistory) : Prop :=
  ∀ text, ∃ wraps, s.accounted text + 18446744073709551616 * wraps = s.receivedFor text

theorem step_balanced {s next : DelayHistory} {action : Action} (balanced : s.Balanced)
    (stepped : s.step action = some next) : next.Balanced := by
  intro text
  obtain ⟨wraps,balance⟩ := balanced text
  cases action with
  | delay message =>
    simp only [step] at stepped
    split at stepped
    next => contradiction
    next =>
      cases Option.some.inj stepped
      by_cases own : text = message.message
      · subst own
        have counted := delay_stored s.storage message
        have divided := Nat.mod_add_div (stored s.storage message.message + 1) 18446744073709551616
        refine ⟨wraps + (stored s.storage message.message + 1) / 18446744073709551616,?_⟩
        simp only [accounted,receivedFor,emittedFor_append,List.countP_append,List.countP_singleton,
          decide_true,if_true] at balance ⊢
        omega
      · obtain ⟨none,same⟩ := delay_other s.storage message own
        refine ⟨wraps,?_⟩
        simp only [accounted,receivedFor] at balance
        simp [accounted,receivedFor,none,same,Ne.symm own,balance]
  | clear now order =>
    simp only [step] at stepped
    split at stepped
    next permuted =>
      cases Option.some.inj stepped
      have cleared := clear_stored s.storage now text
      refine ⟨wraps,?_⟩
      simp only [accounted,receivedFor,emittedFor_append,emittedFor_perm (List.isPerm_iff.mp permuted)] at balance ⊢
      omega
    next => contradiction

/-- The messages sent for a text and the count kept for it account for the messages with
that text, but for what the count has wrapped away. -/
theorem delayed_accounted {s : DelayHistory} (run : Run step Always {} s) (text : String) :
    (∃ wraps, s.accounted text + 18446744073709551616 * wraps = s.receivedFor text) ∧
      (s.receivedFor text < 18446744073709551616 → s.accounted text = s.receivedFor text) := by
  have balanced : s.Balanced := by
    refine Run.invariant run ?_ fun _ _ _ _ kept _ stepped => step_balanced kept stepped
    intro text
    exact ⟨0,rfl⟩
  refine ⟨balanced text,?_⟩
  intro few
  obtain ⟨wraps,balance⟩ := balanced text
  omega

theorem delayed_accounted_cleared : ∃ s : DelayHistory, Run step Always {} s ∧ s.storage.entries = [] ∧
    s.emitted.map (fun sent => sent.2.message) = ["[x3] a","a"] ∧ s.accounted "a" = s.receivedFor "a" := by
  obtain ⟨s,run,shape⟩ := exists_run step Always {}
    (fun s => decide (s.storage.entries.map Prod.fst = []) && decide (s.receivedFor "a" = 4) &&
      decide (s.emitted.map (fun sent => sent.2.message) = ["[x3] a","a"]))
    [.delay ⟨"a",5,.info,60⟩,.delay ⟨"a",6,.info,60⟩,.delay ⟨"a",90,.error,60⟩,.delay ⟨"a",91,.info,60⟩,
      .clear 4000 [("a",⟨"a",90,.info,0⟩)]] (by decide +kernel)
  simp only [Bool.and_eq_true,decide_eq_true_eq,List.map_eq_nil_iff] at shape
  obtain ⟨⟨cleared,four⟩,sent⟩ := shape
  exact ⟨s,run,cleared,sent,(delayed_accounted run "a").2 (by omega)⟩

/-- Where no message passes its delay, the count just grows. -/
theorem run_delayed (message : LogMessage) (own : ¬(message.delayInSeconds = 0 ∨ message.delayInSeconds = maxDelay))
    (soon : ¬message.timestamp > message.delayInSeconds) (count : Nat) :
    ∃ s, Run step Always {} s ∧ s.emitted = [] ∧ s.received = List.replicate count message ∧
      stored s.storage message.message = count % 18446744073709551616 ∧
      ∀ value, s.storage.find? message.message = some value → value.lastTimestamp = 0 := by
  induction count with
  | zero => exact ⟨{},.start,rfl,rfl,rfl,by simp⟩
  | succ count ih =>
    obtain ⟨s,run,silent,received,kept,old⟩ := ih
    have first : ((s.storage.find? message.message).getD {level := message.level}).lastTimestamp = 0 := by
      cases found : s.storage.find? message.message with
      | none => rfl
      | some value => exact old value found
    have silent' : (delay s.storage message).2 = none ∧
        ∀ value, (delay s.storage message).1.find? message.message = some value → value.lastTimestamp = 0 := by
      simp [delay,first,soon]
    obtain ⟨held,later⟩ := silent'
    have counted := delay_stored s.storage message
    refine ⟨_,.step s _ (.delay message) run trivial (step_delay s own),?_,?_,?_,?_⟩
    · simp [silent,held]
    · simp [received,List.replicate_succ']
    · rw [held,kept] at counted
      simpa [emittedFor] using counted
    · exact later

theorem count_wraps : ¬∀ s : DelayHistory, Run step Always {} s → ∀ text, s.accounted text = s.receivedFor text := by
  intro accounts
  obtain ⟨s,run,silent,received,kept,_⟩ :=
    run_delayed ⟨"a",0,.info,1⟩ (by decide) (by decide) 18446744073709551616
  have equal := accounts s run "a"
  rw [accounted,receivedFor,silent,received,kept,List.countP_replicate] at equal
  simp [emittedFor] at equal

end DelayHistory

/-- What the log thread keeps of the delayed messages is what such a history keeps. -/
theorem LogDaemon.run_delays {handlers : Nat} {cyclicTasks : List Routine} {s : LogDaemon}
    (run : Run LogDaemon.step Always (LogDaemon.start handlers cyclicTasks) s) :
    ∃ history, Run DelayHistory.step Always {} history ∧ history.storage = s.log.delayStorage := by
  refine @Run.invariant _ _ _ _ _ s
    (fun s => ∃ history, Run DelayHistory.step Always {} history ∧ history.storage = s.log.delayStorage) run
    ⟨{},.start,rfl⟩ ?_
  intro s next action _ kept _ stepped
  obtain ⟨history,before,same⟩ := kept
  rcases LogDaemon.step_cases stepped with ⟨_,_,_,rfl,_⟩ | ⟨_,_,_,rfl⟩ | ⟨_,_,_,_,rfl,_⟩ |
    ⟨place,now,order,taken,_,_,_,handled⟩
  · exact ⟨history,before,same⟩
  · exact ⟨history,before,same⟩
  · exact ⟨history,before,same⟩
  · cases item : taken.1.2 with
    | none =>
      rw [item] at handled
      cases Option.some.inj handled
      exact ⟨history,before,same⟩
    | some message =>
      rw [item] at handled
      simp only [LogDaemon.handle] at handled
      split at handled
      next =>
        cases Option.some.inj handled
        exact ⟨history,before,same⟩
      next own =>
        split at handled
        next =>
          split at handled
          next =>
            cases Option.some.inj handled
            exact ⟨_,.step history _ _ before trivial (history.step_clear now),by simp [same]⟩
          next => contradiction
        next bounded =>
          cases Option.some.inj handled
          refine ⟨_,.step history _ _ before trivial (history.step_delay (not_or.mpr ⟨own,bounded⟩)),?_⟩
          cases (LogInstance.delay s.log.delayStorage message).2 <;> simp [same,LogInstance.push]

end Call45Aggr
