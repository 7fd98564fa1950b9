import Mathlib.Data.List.SplitBy

/-! The run-length encoding of a word: its maximal blocks of equal consecutive items, each
with its length. Reading one more item changes the last run only. -/
namespace Call45Aggr.Library

variable {α : Type} [DecidableEq α]

def runs (word : List α) : List (α × Nat) :=
  (word.splitBy fun item next => decide (item = next)).filterMap fun block =>
    block.head?.map fun item => (item,block.length)

@[simp] theorem runs_nil : runs ([] : List α) = [] := rfl

theorem runs_append_replicate {earlier : List α} {item : α} (other : earlier.getLast? ≠ some item)
    (count : Nat) :
    runs (earlier ++ List.replicate (count + 1) item) = runs earlier ++ [(item,count + 1)] := by
  have apart : ∀ last ∈ earlier.getLast?, ∀ first ∈ (List.replicate (count + 1) item).head?,
      decide (last = first) = false := by
    intro last ends first starts
    apply decide_eq_false
    intro same
    have first : item = first := by simpa [List.replicate_succ] using starts
    exact other (first ▸ same ▸ ends)
  have single : (List.replicate (count + 1) item).splitBy (fun item next => decide (item = next)) =
      [List.replicate (count + 1) item] := by
    apply List.splitBy_of_isChain (by simp)
    simp only [decide_eq_true_eq]
    exact List.isChain_replicate_of_rel _ rfl
  rw [runs,List.splitBy_append apart,single,List.filterMap_append,← runs]
  simp [List.replicate_succ]

theorem runs_append_other {word : List α} {item : α} (other : word.getLast? ≠ some item) :
    runs (word ++ [item]) = runs word ++ [(item,1)] :=
  runs_append_replicate other 0

theorem exists_append_replicate {word : List α} {item : α} (last : word.getLast? = some item) :
    ∃ earlier count, earlier.getLast? ≠ some item ∧ word = earlier ++ List.replicate (count + 1) item := by
  induction word using List.reverseRecOn with
  | nil => simp at last
  | append_singleton word final ih =>
    obtain rfl : final = item := by simpa using last
    by_cases longer : word.getLast? = some final
    · obtain ⟨earlier,count,other,rfl⟩ := ih longer
      exact ⟨earlier,count + 1,other,by rw [List.append_assoc,← List.replicate_succ']⟩
    · exact ⟨word,0,longer,rfl⟩

theorem runs_append_same {word : List α} {item : α} (last : word.getLast? = some item) :
    ∃ before count, runs word = before ++ [(item,count)] ∧
      runs (word ++ [item]) = before ++ [(item,count + 1)] := by
  obtain ⟨earlier,count,other,rfl⟩ := exists_append_replicate last
  refine ⟨runs earlier,count + 1,runs_append_replicate other count,?_⟩
  rw [List.append_assoc,← List.replicate_succ']
  exact runs_append_replicate other (count + 1)

end Call45Aggr.Library
