import Mathlib.Data.List.Infix

/-! The occurrences of a word in a text, searched from the left, and the text with
them replaced. -/
namespace Call45Aggr.Library.Occurrence
variable {α : Type}

section
variable [DecidableEq α]

/-- How many symbols stand before the leftmost occurrence. -/
def find (word : List α) : List α → Option Nat
  | [] => if word = [] then some 0 else none
  | c :: text =>
    if word <+: c :: text then some 0 else (find word text).map (· + 1)

@[simp] theorem find_empty (text : List α) : find [] text = some 0 := by
  cases text <;> simp [find]

theorem find_eq_none {word text : List α} : find word text = none ↔ ¬ word <:+: text := by
  induction text with
  | nil => simp [find]
  | cons c text ih =>
    rw [find,List.infix_cons_iff]
    by_cases first : word <+: c :: text
    · simp [first]
    · simp [first,ih]

/-- The search stops at an occurrence, and passes none. -/
theorem find_eq_some {word text : List α} {n : Nat} (found : find word text = some n) :
    ∃ gap rest : List α, text = gap ++ word ++ rest ∧ gap.length = n ∧
      ∀ m < n, ¬ word <+: text.drop m := by
  induction text generalizing n with
  | nil =>
    rw [find] at found
    split at found
    next empty =>
      obtain rfl := Option.some_inj.mp found
      exact ⟨[],[],by simp [empty],rfl,by simp⟩
    next => contradiction
  | cons c text ih =>
    rw [find] at found
    split at found
    next first =>
      obtain rfl := Option.some_inj.mp found
      obtain ⟨rest,same⟩ := first
      exact ⟨[],rest,by simp [same],rfl,by simp⟩
    next later =>
      obtain ⟨k,inner,rfl⟩ := Option.map_eq_some_iff.mp found
      obtain ⟨gap,rest,same,length,none⟩ := ih inner
      refine ⟨c :: gap,rest,by simp [same],by simp [length],fun m before => ?_⟩
      cases m with
      | zero => simpa using later
      | succ m => simpa using none m (by omega)

end

/-- The text with its leftmost occurrences, none overlapping an earlier one, replaced. -/
inductive Replaced (word substitute : List α) : List α → List α → Prop
  | rest {text : List α} (absent : ¬ word <:+: text) : Replaced word substitute text text
  | occurrence {gap rest result : List α}
      (leftmost : ∀ m < gap.length, ¬ word <+: (gap ++ word ++ rest).drop m)
      (others : Replaced word substitute rest result) :
      Replaced word substitute (gap ++ word ++ rest) (gap ++ substitute ++ result)

namespace Replaced
variable {word substitute : List α}

private theorem gap_le {gap gap' rest rest' : List α}
    (leftmost : ∀ m < gap.length, ¬ word <+: (gap ++ word ++ rest).drop m)
    (same : gap ++ word ++ rest = gap' ++ word ++ rest') : gap.length ≤ gap'.length := by
  by_contra longer
  apply leftmost gap'.length (by omega)
  rw [same]
  simp [List.append_assoc]

/-- There is one way at most; for the empty word there is none. -/
theorem unique {text result result' : List α}
    (one : Replaced word substitute text result) (two : Replaced word substitute text result') :
    result = result' := by
  induction one generalizing result' with
  | rest absent =>
    cases two with
    | rest => rfl
    | occurrence => exact absurd (List.infix_append _ _ _) absent
  | @occurrence gap rest result leftmost others ih =>
    generalize same : gap ++ word ++ rest = text at two
    cases two with
    | rest absent => exact absurd (same ▸ List.infix_append _ _ _) absent
    | @occurrence gap' rest' result' leftmost' others' =>
      have length : gap.length = gap'.length :=
        le_antisymm (gap_le leftmost same) (gap_le leftmost' same.symm)
      rw [List.append_assoc,List.append_assoc] at same
      obtain ⟨rfl,behind⟩ := List.append_inj same length
      obtain rfl := List.append_cancel_left behind
      rw [ih others']

end Replaced
end Call45Aggr.Library.Occurrence
