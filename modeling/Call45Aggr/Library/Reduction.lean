import Mathlib.Data.Multiset.Dedup
import Mathlib.Data.Multiset.Basic
import Mathlib.Algebra.Order.Group.Multiset
import Mathlib.Algebra.BigOperators.Group.Multiset.Basic

/-! Operations on bags that may be applied to the parts of a bag before they are applied to the
whole, and what becomes of them when the parts are merged without repetitions. -/
namespace Call45Aggr.Library
variable {α : Type}

theorem mem_sum_bags {item : α} (parts : List (Multiset α)) :
    item ∈ parts.sum ↔ ∃ part ∈ parts, item ∈ part := by
  induction parts with
  | nil => simp
  | cons part parts ih => simp [ih]

/-- The reduction is the same by halves and by pairs. -/
structure Reducing (reduce : Multiset α → Multiset α) : Prop where
  halves : ∀ first second, reduce (first + second) = reduce (reduce first + reduce second)
  pairs : ∀ items : List (α × α), reduce (items.map fun item => {item.1,item.2}).sum =
    reduce (items.map fun item => reduce {item.1,item.2}).sum

namespace Reducing
variable {reduce : Multiset α → Multiset α}

theorem congr (lawful : Reducing reduce) {first other : Multiset α} (same : reduce first = reduce other)
    (rest : Multiset α) : reduce (first + rest) = reduce (other + rest) := by
  rw [lawful.halves first,lawful.halves other,same]

/-- What the empty bag reduces to is absorbed by two items. -/
theorem pair_empty (lawful : Reducing reduce) (a b : α) (rest : Multiset α) :
    reduce ({a,b} + rest + reduce 0) = reduce ({a,b} + rest) := by
  have twice : reduce (reduce {a,b}) = reduce {a,b} := by simpa using (lawful.pairs [(a,b)]).symm
  have absorbed : reduce ({a,b} + reduce 0) = reduce {a,b} := by
    calc reduce ({a,b} + reduce 0) = reduce (reduce {a,b} + reduce 0) := lawful.congr twice.symm _
      _ = reduce ({a,b} + 0) := (lawful.halves _ _).symm
      _ = reduce {a,b} := by rw [add_zero]
  rw [add_right_comm]
  exact lawful.congr absorbed rest

theorem reduce_empty (lawful : Reducing reduce) : reduce (reduce 0) = reduce 0 := by
  have double : reduce (reduce 0 + reduce 0) = reduce 0 := by simpa using (lawful.halves 0 0).symm
  rcases Multiset.empty_or_exists_mem (reduce 0) with none' | ⟨a,member⟩
  · rw [none',none']
  · obtain ⟨rest,split⟩ := Multiset.exists_cons_of_mem member
    have pair : reduce 0 + reduce 0 = {a,a} + (rest + rest) := by
      rw [split]
      simp only [Multiset.insert_eq_cons,Multiset.cons_add,Multiset.add_cons,Multiset.singleton_add]
    have triple : reduce (reduce 0 + reduce 0 + reduce 0) = reduce (reduce 0 + reduce 0) := by
      conv_lhs => rw [pair]
      rw [pair]
      exact lawful.pair_empty a a _
    have single : reduce (reduce 0 + reduce 0 + reduce 0) = reduce (0 + reduce 0) := lawful.congr double _
    rw [zero_add] at single
    rw [← single,triple,double]

theorem reduce_reduce (lawful : Reducing reduce) (bag : Multiset α) : reduce (reduce bag) = reduce bag := by
  have absorbed : reduce (reduce 0 + reduce bag) = reduce (0 + reduce bag) :=
    lawful.congr lawful.reduce_empty _
  calc reduce (reduce bag) = reduce (0 + reduce bag) := by rw [zero_add]
    _ = reduce (reduce 0 + reduce bag) := absorbed.symm
    _ = reduce (0 + bag) := (lawful.halves 0 bag).symm
    _ = reduce bag := by rw [zero_add]

theorem reduce_sum (lawful : Reducing reduce) (parts : List (Multiset α)) :
    reduce (parts.map reduce).sum = reduce parts.sum := by
  induction parts with
  | nil => rfl
  | cons part parts ih =>
    rw [List.map_cons,List.sum_cons,List.sum_cons,lawful.congr (lawful.reduce_reduce part),add_comm,
      lawful.congr ih,add_comm]

/-- Where merging reduced parts without repetitions never shows, repetitions never do. -/
theorem ignores_repetition [DecidableEq α] (lawful : Reducing reduce)
    (merged : ∀ parts : List (Multiset α), 2 ≤ parts.length →
      reduce (parts.map reduce).sum.dedup = reduce (parts.map reduce).sum) (bag : Multiset α) :
    reduce bag.dedup = reduce bag := by
  let parts (bag : Multiset α) : List (Multiset α) := 0 :: 0 :: bag.toList.map fun item => {item}
  have whole (bag : Multiset α) : reduce ((parts bag).map reduce).sum = reduce bag := by
    have together : (parts bag).sum = bag := by
      simp only [parts,List.sum_cons,zero_add]
      rw [← Multiset.sum_coe,← Multiset.map_coe,Multiset.coe_toList,Multiset.sum_map_singleton]
    rw [lawful.reduce_sum,together]
  have same : ((parts bag.dedup).map reduce).sum.dedup = ((parts bag).map reduce).sum.dedup := by
    refine Multiset.dedup_ext.mpr fun item => ?_
    rw [mem_sum_bags,mem_sum_bags]
    simp [parts]
  have long (bag : Multiset α) : 2 ≤ (parts bag).length := by simp [parts]
  calc reduce bag.dedup = reduce ((parts bag.dedup).map reduce).sum := (whole _).symm
    _ = reduce ((parts bag.dedup).map reduce).sum.dedup := (merged _ (long _)).symm
    _ = reduce ((parts bag).map reduce).sum.dedup := by rw [same]
    _ = reduce ((parts bag).map reduce).sum := merged _ (long _)
    _ = reduce bag := whole bag

end Reducing

end Call45Aggr.Library
