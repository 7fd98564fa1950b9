import Call45Aggr.CyclicTask
import Call45Aggr.Library.RunLength
import Call45Aggr.RingBuffer

/-! The errors a cyclic task saves in its ring and shows on its page: the run-length
encoding of the texts, as far as the ring reaches back. -/
namespace Call45Aggr
open Library

namespace CyclicTask

theorem saveError_same {task : CyclicTask} {text : String} {last : ErrorInfo}
    (newest : task.errors.getLast? = some last) (same : last.message = text) :
    task.saveError text = {task with
      errors := task.errors.dropLast ++ [{last with count := (last.count + 1) % 18446744073709551616}]} := by
  simp [saveError,newest,same]

theorem saveError_other {task : CyclicTask} {text : String}
    (other : task.errors.getLast?.map ErrorInfo.message ≠ some text) :
    task.saveError text = {task with
      errors := (task.errors ++ [ErrorInfo.mk text 1]).rtake 10
      errorsCount := (task.errorsCount + 1) % 18446744073709551616} := by
  cases newest : task.errors.getLast? with
  | none =>
    have empty := List.getLast?_eq_none_iff.mp newest
    simp [saveError,empty,List.rtake]
  | some last =>
    have apart : last.message ≠ text := by simpa [newest] using other
    simp [saveError,newest,apart,List.rtake]

end CyclicTask

structure TimedError extends ErrorInfo where
  timestamp : Int

/-- `errors_` and `errors_count_` of a task. -/
structure ErrorHistory where
  errors : RingBuffer TimedError 10
  errorsCount : Nat := 0

namespace ErrorHistory

def start (buffer : Vector TimedError 10) : ErrorHistory := {errors := .clear (by decide) buffer}

/-- What it reports to the health register first has no part in it. -/
def saveError (s : ErrorHistory) (text : String) (now : Int) : ErrorHistory :=
  if 0 < s.errors.size ∧ s.errors.back.message = text then
    {s with errors := s.errors.setBack {s.errors.back with
      count := (s.errors.back.count + 1) % 18446744073709551616
      timestamp := now}}
  else {
    errors := s.errors.push {message := text,count := 1,timestamp := now}
    errorsCount := (s.errorsCount + 1) % 18446744073709551616}

def saveErrors (s : ErrorHistory) (texts : List (String × Int)) : ErrorHistory :=
  texts.foldl (fun s saved => s.saveError saved.1 saved.2) s

def currentErrors (s : ErrorHistory) : List TimedError := s.errors.copyTo.reverse

/-- The task keeps the same errors and leaves out the ring and the times. -/
def Shows (s : ErrorHistory) (task : CyclicTask) : Prop :=
  s.errors.copyTo.map TimedError.toErrorInfo = task.errors ∧ s.errorsCount = task.errorsCount

theorem Shows.newest {s : ErrorHistory} {task : CyclicTask} (shown : s.Shows task) :
    task.errors.getLast? = if 0 < s.errors.size then some s.errors.back.toErrorInfo else none := by
  rw [← shown.1]
  cases size : s.errors.size with
  | zero =>
    have empty := List.length_eq_zero_iff.mp (s.errors.length_copyTo.trans size)
    simp [empty]
  | succ count => simp [s.errors.copyTo_filled size]

theorem saveError_shows {s : ErrorHistory} {task : CyclicTask} (shown : s.Shows task) (text : String) (now : Int) :
    (s.saveError text now).Shows (task.saveError text) := by
  have newest := shown.newest
  obtain ⟨errors,counted⟩ := shown
  by_cases again : 0 < s.errors.size ∧ s.errors.back.message = text
  · obtain ⟨count,size⟩ := Nat.exists_eq_add_one.mpr again.1
    rw [if_pos again.1] at newest
    rw [saveError,if_pos again,CyclicTask.saveError_same newest again.2,← errors,s.errors.copyTo_filled size]
    refine ⟨?_,counted⟩
    simp [s.errors.copyTo_setBack size]
  · have other : task.errors.getLast?.map ErrorInfo.message ≠ some text := by
      rw [newest]
      split
      next filled => simpa using fun same => again ⟨filled,same⟩
      next => simp
    rw [saveError,if_neg again,CyclicTask.saveError_other other,← errors]
    refine ⟨?_,congrArg (fun count => (count + 1) % 18446744073709551616) counted⟩
    rw [RingBuffer.copyTo_push,List.rtake,List.rtake,List.map_drop]
    simp

end ErrorHistory

/-- The entry for a run; its count is of type `size_t`. -/
def runInfo (run : String × Nat) : ErrorInfo := ⟨run.1,run.2 % 18446744073709551616⟩

namespace CyclicTask

/-- The task has the newest ten runs of the texts, and the number of all of them. -/
def Encodes (task : CyclicTask) (texts : List String) : Prop :=
  task.errors = ((runs texts).map runInfo).rtake 10 ∧
    task.errorsCount = (runs texts).length % 18446744073709551616

theorem Encodes.saveError {task : CyclicTask} {texts : List String} (encoded : task.Encodes texts)
    (text : String) : (task.saveError text).Encodes (texts ++ [text]) := by
  obtain ⟨errors,counted⟩ := encoded
  by_cases same : texts.getLast? = some text
  · obtain ⟨before,count,whole,longer⟩ := runs_append_same same
    rw [whole,List.map_append,List.map_singleton,List.rtake_concat_succ] at errors
    have newest : task.errors.getLast? = some (runInfo (text,count)) := by simp [errors]
    have saved := @saveError_same task text _ newest rfl
    rw [saved,Encodes,longer,List.map_append,List.map_singleton,List.rtake_concat_succ]
    refine ⟨?_,?_⟩
    · simp [errors,runInfo]
    · simpa [whole] using counted
  · have other : task.errors.getLast?.map ErrorInfo.message ≠ some text := by
      cases last : texts.getLast? with
      | none => simp [errors,List.getLast?_eq_none_iff.mp last]
      | some earlier =>
        obtain ⟨before,count,whole,_⟩ := runs_append_same last
        rw [whole,List.map_append,List.map_singleton,List.rtake_concat_succ] at errors
        simpa [errors,runInfo,last] using same
    rw [saveError_other other,Encodes,runs_append_other same,List.map_append,List.map_singleton,
      List.rtake_concat_succ,List.rtake_concat_succ]
    refine ⟨?_,?_⟩
    · simp [errors,List.rtake_eq_reverse_take_reverse,List.take_take,runInfo]
    · simp [counted]

theorem foldl_encodes (texts : List String) {task : CyclicTask} (clean : task.errors = [])
    (none : task.errorsCount = 0) : (texts.foldl CyclicTask.saveError task).Encodes texts := by
  induction texts using List.reverseRecOn with
  | nil => exact ⟨clean,none⟩
  | append_singleton texts text ih =>
    rw [List.foldl_append]
    exact ih.saveError text

end CyclicTask

namespace ErrorHistory

theorem saveErrors_shows {s : ErrorHistory} {task : CyclicTask} (shown : s.Shows task)
    (texts : List (String × Int)) :
    (s.saveErrors texts).Shows ((texts.map Prod.fst).foldl CyclicTask.saveError task) := by
  induction texts generalizing s task with
  | nil => exact shown
  | cons saved texts ih => exact ih (saveError_shows shown saved.1 saved.2)

theorem saveErrors_encodes (buffer : Vector TimedError 10) (texts : List (String × Int)) :
    ((start buffer).saveErrors texts).errors.copyTo.map TimedError.toErrorInfo =
        ((runs (texts.map Prod.fst)).map runInfo).rtake 10 ∧
      ((start buffer).saveErrors texts).errorsCount =
        (runs (texts.map Prod.fst)).length % 18446744073709551616 := by
  have shown : (start buffer).Shows {name := ""} := ⟨rfl,rfl⟩
  obtain ⟨errors,counted⟩ := saveErrors_shows shown texts
  obtain ⟨encoded,all⟩ := @CyclicTask.foldl_encodes (texts.map Prod.fst) {name := ""} rfl rfl
  exact ⟨errors.trans encoded,counted.trans all⟩

/-- Whatever the memory held and whatever is saved, the page shows the newest ten runs of
the texts, newest first. -/
theorem current_errors_runs (buffer : Vector TimedError 10) (texts : List (String × Int)) :
    ((start buffer).saveErrors texts).currentErrors.map TimedError.toErrorInfo =
        (((runs (texts.map Prod.fst)).map runInfo).rtake 10).reverse ∧
      ((start buffer).saveErrors texts).errorsCount =
        (runs (texts.map Prod.fst)).length % 18446744073709551616 := by
  obtain ⟨errors,counted⟩ := saveErrors_encodes buffer texts
  refine ⟨?_,counted⟩
  rw [currentErrors,List.map_reverse,errors]

theorem runs_repeated (text : String) (now : Int) (count : Nat) :
    runs ((List.replicate (count + 1) (text,now)).map Prod.fst) = [(text,count + 1)] := by
  have single := @runs_append_replicate _ _ [] text (by simp) count
  simpa using single

theorem run_wraps : ¬∀ (buffer : Vector TimedError 10) (texts : List (String × Int)),
    ((start buffer).saveErrors texts).currentErrors.map TimedError.toErrorInfo =
        (((runs (texts.map Prod.fst)).map fun run => ErrorInfo.mk run.1 run.2).rtake 10).reverse ∧
      ((start buffer).saveErrors texts).errorsCount = (runs (texts.map Prod.fst)).length := by
  intro exactly
  have shown := (exactly (Vector.replicate 10 ⟨⟨"",0⟩,0⟩) (List.replicate (18446744073709551615 + 1) ("e",0))).1
  rw [currentErrors,List.map_reverse,(saveErrors_encodes _ _).1,runs_repeated] at shown
  simp [runInfo,List.rtake] at shown

end ErrorHistory
end Call45Aggr
