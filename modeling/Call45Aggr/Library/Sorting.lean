import Mathlib.Data.List.Sort

/-! Sorting by a key with equal keys in any order: what a sort that need not be stable
promises. -/
namespace Call45Aggr.Library

structure Sorting {α β : Type} [LinearOrder β] (key : α → β) where
  run : List α → List α
  perm : ∀ xs, (run xs).Perm xs
  sorted : ∀ xs, (run xs).Pairwise fun x y => key x ≤ key y

namespace Sorting
variable {α β : Type} [LinearOrder β] {key : α → β}

def insertion (key : α → β) : Sorting key where
  run xs := xs.insertionSort fun x y => key x ≤ key y
  perm xs := List.perm_insertionSort _ xs
  sorted xs := by
    have total : Std.Total fun x y => key x ≤ key y := ⟨fun x y => le_total (key x) (key y)⟩
    have chain : IsTrans α fun x y => key x ≤ key y := ⟨fun _ _ _ => le_trans⟩
    exact List.pairwise_insertionSort _ xs

theorem last (s : Sorting key) {xs : List α} {x : α} (back : (s.run xs).getLast? = some x) :
    x ∈ xs ∧ ∀ y ∈ xs, key y ≤ key x := by
  obtain ⟨front,split⟩ := List.getLast?_eq_some_iff.mp back
  have sorted := s.sorted xs
  rw [split] at sorted
  have members : ∀ y, y ∈ xs ↔ y ∈ front ++ [x] := fun y => by rw [← split,(s.perm xs).mem_iff]
  refine ⟨(members x).mpr (by simp),?_⟩
  intro y member
  rcases List.mem_append.mp ((members y).mp member) with before | same
  · exact (List.pairwise_append.mp sorted).2.2 y before x (by simp)
  · rw [List.mem_singleton.mp same]

/-- Which of several elements with the greatest key comes last is open. -/
theorem exists_last [DecidableEq α] {xs : List α} {x : α} (member : x ∈ xs)
    (greatest : ∀ y ∈ xs, key y ≤ key x) : ∃ s : Sorting key, (s.run xs).getLast? = some x := by
  let chosen := (insertion key).run (xs.erase x) ++ [x]
  have perm : chosen.Perm xs :=
    (((insertion key).perm _).append_right [x]).trans
      ((List.perm_append_singleton x _).trans (List.perm_cons_erase member).symm)
  have sorted : chosen.Pairwise fun x y => key x ≤ key y := by
    refine List.pairwise_append.mpr ⟨(insertion key).sorted _,by simp,?_⟩
    intro y before z last
    rw [List.mem_singleton.mp last]
    exact greatest y (List.mem_of_mem_erase (((insertion key).perm _).mem_iff.mp before))
  refine ⟨⟨fun ys => if ys = xs then chosen else (insertion key).run ys,?_,?_⟩,?_⟩
  · intro ys
    split_ifs with same
    · exact same ▸ perm
    · exact (insertion key).perm ys
  · intro ys
    split_ifs with same
    · exact sorted
    · exact (insertion key).sorted ys
  · simp [chosen]

end Sorting
end Call45Aggr.Library
