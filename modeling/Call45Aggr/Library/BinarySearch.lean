import Mathlib.Data.List.TakeWhile
import Mathlib.Data.Nat.Notation

/-! The halving search of `std::lower_bound` and `std::upper_bound`: where the items for which a
predicate holds come first, it finds the place at which they end. -/
namespace Call45Aggr.Library
variable {α : Type}

def bisect (before : α → Bool) (items : List α) : Nat → Nat → Nat → Nat
  | 0, first, _ => first
  | turns + 1, first, len =>
    let half := len / 2
    if len = 0 then first
    else if (items[first + half]?).any before then bisect before items turns (first + half + 1) (len - half - 1)
    else bisect before items turns first half

def partitionPoint (before : α → Bool) (items : List α) : Nat := bisect before items items.length 0 items.length

/-- The place stays within what is still searched. -/
theorem bisect_eq {before : α → Bool} {left right : List α} (holds : ∀ x ∈ left, before x = true)
    (fails : ∀ x ∈ right, before x = false) (turns first len : Nat) (enough : len ≤ turns)
    (above : first ≤ left.length) (below : left.length ≤ first + len) (inside : first + len ≤ (left ++ right).length) :
    bisect before (left ++ right) turns first len = left.length := by
  induction turns generalizing first len with
  | zero =>
    rw [bisect]
    omega
  | succ turns ih =>
    rw [bisect]
    split
    next => omega
    next filled =>
      have middle : first + len / 2 < (left ++ right).length := by omega
      have decided : ((left ++ right)[first + len / 2]?).any before = decide (first + len / 2 < left.length) := by
        by_cases early : first + len / 2 < left.length
        · rw [List.getElem?_append_left early,List.getElem?_eq_getElem early]
          simp [early,holds]
        · rw [List.getElem?_append_right (by omega)]
          have late : first + len / 2 - left.length < right.length := by
            rw [List.length_append] at middle
            omega
          rw [List.getElem?_eq_getElem late]
          simp [early,fails]
      rw [decided]
      split
      next early =>
        have before' := of_decide_eq_true early
        exact ih _ _ (by omega) (by omega) (by omega) (by omega)
      next late =>
        have after : ¬first + len / 2 < left.length := by simpa using late
        exact ih _ _ (by omega) (by omega) (by omega) (by omega)

theorem partitionPoint_append {before : α → Bool} {left right : List α} (holds : ∀ x ∈ left, before x = true)
    (fails : ∀ x ∈ right, before x = false) : partitionPoint before (left ++ right) = left.length :=
  bisect_eq holds fails _ _ _ (Nat.le_refl _) (by omega) (by simp) (by simp)

theorem dropWhile_fails {before : α → Bool} {items : List α}
    (ordered : items.Pairwise fun x y => before y = true → before x = true) :
    ∀ x ∈ items.dropWhile before, before x = false := by
  induction items with
  | nil => simp
  | cons first rest ih =>
    obtain ⟨earlier,ordered⟩ := List.pairwise_cons.mp ordered
    rw [List.dropWhile_cons]
    split
    next => exact ih ordered
    next stopped =>
      intro x member
      rcases List.mem_cons.mp member with rfl | later
      · simpa using stopped
      · by_contra holds
        exact stopped (earlier x later (by simpa using holds))

theorem partitionPoint_eq {before : α → Bool} {items : List α}
    (ordered : items.Pairwise fun x y => before y = true → before x = true) :
    partitionPoint before items = (items.takeWhile before).length := by
  have split : items.takeWhile before ++ items.dropWhile before = items := List.takeWhile_append_dropWhile
  have holds : ∀ x ∈ items.takeWhile before, before x = true := fun _ member => List.mem_takeWhile_imp member
  have found := partitionPoint_append holds (dropWhile_fails ordered)
  rwa [split] at found

theorem partitionPoint_split {before : α → Bool} {items : List α}
    (ordered : items.Pairwise fun x y => before y = true → before x = true) :
    ∃ left right : List α, items = left ++ right ∧ partitionPoint before items = left.length ∧
      (∀ x ∈ left, before x = true) ∧ ∀ x ∈ right, before x = false :=
  ⟨items.takeWhile before,items.dropWhile before,List.takeWhile_append_dropWhile.symm,partitionPoint_eq ordered,
    fun _ member => List.mem_takeWhile_imp member,dropWhile_fails ordered⟩

theorem getElem?_partitionPoint {before : α → Bool} {items : List α}
    (ordered : items.Pairwise fun x y => before y = true → before x = true) :
    items[partitionPoint before items]? = items.find? fun x => !before x := by
  rw [partitionPoint_eq ordered]
  clear ordered
  induction items with
  | nil => rfl
  | cons first rest ih => cases holds : before first <;> simp [holds,ih]

end Call45Aggr.Library
