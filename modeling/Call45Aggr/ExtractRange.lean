import Call45Aggr.Library.BinarySearch
import Mathlib.Order.Lattice
import Mathlib.Data.List.Pairwise

/-! `extract_range`: the part of a sorted container that has one value of a member. -/
namespace Call45Aggr
open Library

/-- A part of an array, by the place of its first element; `none` is a null pointer. -/
structure ArrayView where
  ptr : Option Nat
  size : Nat
  deriving DecidableEq

namespace ArrayView
variable {DataType : Type}

def empty (view : ArrayView) : Bool := view.size = 0 || view.ptr = none

/-- What is between `begin` and `end` of the view. -/
def elements (view : ArrayView) (container : List DataType) : List DataType :=
  match view.ptr with
  | some ptr => (container.drop ptr).take view.size
  | none => []

end ArrayView

section
variable {DataType ValueType : Type} [LinearOrder ValueType]

/-- `lb_cmp` and `ub_cmp` compare the sought value from the right and from the left. -/
def extractRange (container : List DataType) (seeking : ValueType) (memPtr : DataType → ValueType) : ArrayView :=
  let lb := partitionPoint (fun left => memPtr left < seeking) container
  if lb = container.length then ⟨none,0⟩
  else
    let ub := lb + partitionPoint (fun right => !decide (seeking < memPtr right)) (container.drop lb)
    ⟨some lb,ub - lb⟩

example : extractRange [1,3,3,3,7] 3 id = ⟨some 1,3⟩ ∧ extractRange [1,3] 2 id = ⟨some 1,0⟩ ∧
    extractRange [1,3] 4 id = ⟨none,0⟩ := by decide

/-- The view is of the block between the smaller and the greater elements, and of nothing where no element is
behind them. -/
structure Extracts (container : List DataType) (seeking : ValueType) (memPtr : DataType → ValueType)
    (view : ArrayView) (before behind : List DataType) : Prop where
  block : container = before ++ view.elements container ++ behind
  smaller : ∀ x ∈ before, memPtr x < seeking
  sought : ∀ x ∈ view.elements container, memPtr x = seeking
  greater : ∀ x ∈ behind, seeking < memPtr x
  size : view.size = (view.elements container).length
  ptr : view.ptr = if before.length = container.length then none else some before.length

variable {container : List DataType} {seeking : ValueType} {memPtr : DataType → ValueType}

theorem extractRange_extracts (sorted : container.Pairwise fun x y => memPtr x ≤ memPtr y) (seeking : ValueType) :
    ∃ before behind, Extracts container seeking memPtr (extractRange container seeking memPtr) before behind := by
  have ordered : container.Pairwise fun x y => decide (memPtr y < seeking) = true → decide (memPtr x < seeking) = true :=
    sorted.imp fun le less => by
      rw [decide_eq_true_eq] at less ⊢
      exact le.trans_lt less
  obtain ⟨before,rest,rfl,lower,early,late⟩ := partitionPoint_split ordered
  have ordered' : rest.Pairwise fun x y =>
      (!decide (seeking < memPtr y)) = true → (!decide (seeking < memPtr x)) = true :=
    (List.pairwise_append.mp sorted).2.1.imp fun le reached => by
      simp only [Bool.not_eq_true',decide_eq_false_iff_not,not_lt] at reached ⊢
      exact le.trans reached
  obtain ⟨block,behind,rfl,upper,reached,after⟩ := partitionPoint_split ordered'
  have same : ∀ x ∈ block, memPtr x = seeking := by
    intro x member
    have above := late x (List.mem_append_left behind member)
    have below := reached x member
    simp only [Bool.not_eq_true',decide_eq_false_iff_not,not_lt] at above below
    exact le_antisymm below above
  refine ⟨before,behind,?_⟩
  by_cases ended : before.length = (before ++ (block ++ behind)).length
  · have view : extractRange (before ++ (block ++ behind)) seeking memPtr = ⟨none,0⟩ := by
      rw [extractRange,lower]
      exact if_pos ended
    have none : block = [] ∧ behind = [] := by
      rw [List.length_append,List.length_append] at ended
      exact ⟨List.length_eq_zero_iff.mp (by omega),List.length_eq_zero_iff.mp (by omega)⟩
    obtain ⟨rfl,rfl⟩ := none
    rw [view]
    refine ⟨by simp [ArrayView.elements],fun x member => by simpa using early x member,?_,by simp,rfl,?_⟩
    · exact fun x member => by cases member
    · rw [if_pos ended]
  · have view : extractRange (before ++ (block ++ behind)) seeking memPtr = ⟨some before.length,block.length⟩ := by
      simp only [extractRange,lower,if_neg ended,List.drop_left,upper,Nat.add_sub_cancel_left]
    have elements : ArrayView.elements ⟨some before.length,block.length⟩ (before ++ (block ++ behind)) = block := by
      simp [ArrayView.elements]
    rw [view]
    refine ⟨by rw [elements,List.append_assoc],fun x member => by simpa using early x member,?_,?_,?_,?_⟩
    · rw [elements]
      exact same
    · exact fun x member => by simpa using after x member
    · rw [elements]
    · rw [if_neg ended]

namespace Extracts
variable {view : ArrayView} {before behind : List DataType}

theorem elements_eq (extracts : Extracts container seeking memPtr view before behind) :
    view.elements container = container.filter fun x => memPtr x = seeking := by
  have split := congrArg (List.filter fun x => decide (memPtr x = seeking)) extracts.block
  have first : before.filter (fun x => decide (memPtr x = seeking)) = [] :=
    List.filter_eq_nil_iff.mpr fun x member => by simpa using (extracts.smaller x member).ne
  have last : behind.filter (fun x => decide (memPtr x = seeking)) = [] :=
    List.filter_eq_nil_iff.mpr fun x member => by simpa using (extracts.greater x member).ne'
  rw [List.filter_append,List.filter_append,first,last,List.nil_append,List.append_nil] at split
  rw [split]
  exact (List.filter_eq_self.mpr fun x member => by simpa using extracts.sought x member).symm

theorem empty_iff (extracts : Extracts container seeking memPtr view before behind) :
    view.empty = true ↔ view.elements container = [] := by
  rw [ArrayView.empty,Bool.or_eq_true,decide_eq_true_eq,decide_eq_true_eq,extracts.size,List.length_eq_zero_iff]
  refine or_iff_left_of_imp fun null => ?_
  rw [ArrayView.elements,null]

end Extracts

/-- The elements with the sought value, as the block that they are, and an empty view if there is none. -/
theorem extractRange_exact (sorted : container.Pairwise fun x y => memPtr x ≤ memPtr y) (seeking : ValueType) :
    (∃ before behind, Extracts container seeking memPtr (extractRange container seeking memPtr) before behind) ∧
      (extractRange container seeking memPtr).elements container = container.filter (fun x => memPtr x = seeking) ∧
      ((extractRange container seeking memPtr).empty = true ↔ ∀ x ∈ container, memPtr x ≠ seeking) := by
  obtain ⟨before,behind,extracts⟩ := extractRange_extracts sorted seeking
  refine ⟨⟨before,behind,extracts⟩,extracts.elements_eq,?_⟩
  rw [extracts.empty_iff,extracts.elements_eq,List.filter_eq_nil_iff]
  simp only [decide_eq_true_eq,ne_eq]

end

theorem extractRange_exact_pairs :
    (extractRange [(1,'a'),(3,'b'),(3,'c'),(7,'d')] 3 Prod.fst).elements [(1,'a'),(3,'b'),(3,'c'),(7,'d')] =
      [(3,'b'),(3,'c')] :=
  (@extractRange_exact (Nat × Char) Nat _ [(1,'a'),(3,'b'),(3,'c'),(7,'d')] Prod.fst (by decide) 3).2.1.trans (by decide)

end Call45Aggr
