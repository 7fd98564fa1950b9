import Call45Aggr.Library.Occurrence

/-! `replace_all_subs`. Its parameters `from` and `to` are `pattern` and `replacement`
here. -/
namespace Call45Aggr.ReplaceAllSubs
open Library.Occurrence
variable {α : Type}

section
variable [DecidableEq α]

/-- `src.find(pattern, pos)`. -/
def findFrom (src pattern : List α) (pos : Nat) : Option Nat :=
  if pos ≤ src.length then (find pattern (src.drop pos)).map (pos + ·) else none

/-- `src[begin, end)` -/
def writeResult (src : List α) (first last : Nat) : List α := (src.take last).drop first

/-- The loop with what follows it; `none` is a loop still running when the fuel is spent. -/
def replaceLoop (src pattern replacement : List α) : Nat → Nat → List α → Option (List α)
  | 0, _, _ => none
  | fuel + 1, prevPos, result =>
    match findFrom src pattern prevPos with
    | some substrPos =>
      replaceLoop src pattern replacement fuel (substrPos + pattern.length)
        (result ++ writeResult src prevPos substrPos ++ replacement)
    | none => some (result ++ src.drop prevPos)

def replaceAllSubs (fuel : Nat) (src pattern replacement : List α) : Option (List α) :=
  replaceLoop src pattern replacement fuel 0 []

example : replaceAllSubs 3 "aaab".toList "aa".toList "aaa".toList = some "aaaab".toList := by decide

end

/-- What the replacement is for: an empty `pattern` replaces nothing. -/
def Exact (src pattern replacement result : List α) : Prop :=
  (pattern = [] → result = src) ∧ (pattern ≠ [] → Replaced pattern replacement src result)

variable {src pattern replacement : List α}

theorem Exact.unique {result result' : List α} (one : Exact src pattern replacement result)
    (two : Exact src pattern replacement result') : result = result' := by
  by_cases empty : pattern = []
  · rw [one.1 empty,two.1 empty]
  · exact (one.2 empty).unique (two.2 empty)

/-- One pass of the loop writes the gap before the occurrence and goes on behind it. -/
theorem step_some {prevPos : Nat} {gap rest : List α}
    (same : src.drop prevPos = gap ++ pattern ++ rest) :
    writeResult src prevPos (prevPos + gap.length) = gap ∧
      src.drop (prevPos + gap.length + pattern.length) = rest := by
  constructor
  · rw [writeResult,List.drop_take,Nat.add_sub_cancel_left,same,List.append_assoc,List.take_left]
  · rw [Nat.add_assoc,← List.drop_drop,same,← List.length_append,List.drop_left]

section
variable [DecidableEq α]

theorem findFrom_none {pos : Nat} (within : pos ≤ src.length)
    (none : findFrom src pattern pos = none) : ¬ pattern <:+: src.drop pos := by
  rw [findFrom,if_pos within,Option.map_eq_none_iff] at none
  exact find_eq_none.mp none

theorem findFrom_some {pos substrPos : Nat} (found : findFrom src pattern pos = some substrPos) :
    ∃ gap rest : List α, src.drop pos = gap ++ pattern ++ rest ∧ substrPos = pos + gap.length ∧
      ∀ m < gap.length, ¬ pattern <+: (gap ++ pattern ++ rest).drop m := by
  rw [findFrom] at found
  split at found
  next within =>
    obtain ⟨n,inner,rfl⟩ := Option.map_eq_some_iff.mp found
    obtain ⟨gap,rest,same,rfl,leftmost⟩ := find_eq_some inner
    exact ⟨gap,rest,same,rfl,same ▸ leftmost⟩
  next => contradiction

/-- The search position grows with every match, so the text behind it gives the fuel. -/
theorem replaceLoop_exact (replacement : List α) (filled : pattern ≠ []) (fuel prevPos : Nat) (result : List α)
    (within : prevPos ≤ src.length) (enough : src.length - prevPos < fuel) :
    ∃ rest : List α, replaceLoop src pattern replacement fuel prevPos result = some (result ++ rest) ∧
      Replaced pattern replacement (src.drop prevPos) rest := by
  induction fuel generalizing prevPos result with
  | zero => omega
  | succ fuel ih =>
    rw [replaceLoop]
    cases found : findFrom src pattern prevPos with
    | none => exact ⟨src.drop prevPos,rfl,.rest (findFrom_none within found)⟩
    | some substrPos =>
      obtain ⟨gap,behind,same,rfl,leftmost⟩ := findFrom_some found
      obtain ⟨written,next⟩ := step_some same
      have grows : 0 < pattern.length := List.length_pos_of_ne_nil filled
      have length : src.length - prevPos = gap.length + pattern.length + behind.length := by
        rw [← List.length_drop,same,List.length_append,List.length_append]
      obtain ⟨rest,done,others⟩ := ih (prevPos + gap.length + pattern.length)
        (result ++ gap ++ replacement) (by omega) (by omega)
      refine ⟨gap ++ replacement ++ rest,?_,?_⟩
      · simpa [written,List.append_assoc] using done
      · rw [same]
        exact .occurrence leftmost (next ▸ others)

/-- The empty pattern is found again where the search starts. -/
theorem replaceLoop_stuck (fuel prevPos : Nat) (result : List α) (within : prevPos ≤ src.length) :
    replaceLoop src [] replacement fuel prevPos result = none := by
  induction fuel generalizing result with
  | zero => rfl
  | succ fuel ih =>
    have found : findFrom src [] prevPos = some prevPos := by simp [findFrom,within]
    rw [replaceLoop,found]
    exact ih _

/-- It returns, and the replacement, exactly when there is something to look for. -/
theorem returns_exact_iff (src pattern replacement : List α) :
    (∃ (fuel : Nat) (result : List α), replaceAllSubs fuel src pattern replacement = some result ∧
      ∀ text : List α, Exact src pattern replacement text ↔ text = result) ↔ pattern ≠ [] := by
  constructor
  · rintro ⟨fuel,result,done,-⟩ rfl
    rw [replaceAllSubs,replaceLoop_stuck fuel 0 [] (Nat.zero_le _)] at done
    contradiction
  · intro filled
    obtain ⟨rest,done,replaced⟩ := replaceLoop_exact replacement filled
      (src.length + 1) 0 [] (Nat.zero_le src.length) (by omega)
    have exact : Exact src pattern replacement rest := ⟨fun empty => absurd empty filled,fun _ => replaced⟩
    refine ⟨src.length + 1,rest,done,fun text => ⟨fun other => other.unique exact,?_⟩⟩
    rintro rfl
    exact exact

end

theorem empty_pattern :
    ¬ ∃ (fuel : Nat) (result : List Char),
      replaceAllSubs fuel "a".toList [] "b".toList = some result := by
  rintro ⟨fuel,result,done⟩
  rw [replaceAllSubs,replaceLoop_stuck fuel 0 [] (Nat.zero_le _)] at done
  contradiction

end Call45Aggr.ReplaceAllSubs
