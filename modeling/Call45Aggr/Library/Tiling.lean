import Mathlib.Data.Int.Notation
import Mathlib.Tactic.Linarith

/-! Periods that follow one another without gap or overlap, by the first and the last moment of the
period of each moment. -/
namespace Call45Aggr.Library

structure Tiling (start finish : Int → Int) : Prop where
  begun : ∀ t, start t ≤ t
  lasting : ∀ t, t ≤ finish t
  same : ∀ s t, start t ≤ s → s ≤ finish t → start s = start t
  finish_eq : ∀ s t, start s = start t → finish s = finish t

namespace Tiling
variable {start finish : Int → Int}

theorem congr {start' finish' : Int → Int} (tiling : Tiling start finish) (starts : ∀ t, start' t = start t)
    (finishes : ∀ t, finish' t = finish t) : Tiling start' finish' := by
  obtain rfl : start' = start := funext starts
  obtain rfl : finish' = finish := funext finishes
  exact tiling

theorem idempotent (tiling : Tiling start finish) (t : Int) : start (start t) = start t := by
  apply tiling.same _ _ le_rfl
  have begun := tiling.begun t
  have lasting := tiling.lasting t
  omega

theorem start_eq_iff (tiling : Tiling start finish) (s t : Int) :
    start s = start t ↔ start t ≤ s ∧ s ≤ finish t := by
  constructor
  · intro same
    rw [← same,← tiling.finish_eq s t same]
    exact ⟨tiling.begun s,tiling.lasting s⟩
  · intro ⟨begun,lasting⟩
    exact tiling.same s t begun lasting

/-- The moment after a period is the first of the next one. -/
theorem adjacent (tiling : Tiling start finish) (t : Int) : start (finish t + 1) = finish t + 1 := by
  have begun := tiling.begun (finish t + 1)
  have lasting := tiling.lasting (finish t + 1)
  have ahead := tiling.begun t
  have behind := tiling.lasting t
  rcases begun.lt_or_eq with earlier | same
  · exfalso
    rcases le_or_gt (start t) (start (finish t + 1)) with inside | before
    · have equal := tiling.same (start (finish t + 1)) t inside (by omega)
      rw [tiling.idempotent] at equal
      have last := tiling.finish_eq _ _ equal
      omega
    · have equal := tiling.same (start t) (finish t + 1) (by omega) (by omega)
      rw [tiling.idempotent] at equal
      omega
  · exact same

theorem single : Tiling id id where
  begun _ := le_rfl
  lasting _ := le_rfl
  same _ _ := fun before behind => le_antisymm behind before
  finish_eq _ _ := id

/-- The same periods where each moment is divided into as many. -/
theorem scale (tiling : Tiling start finish) {parts : Int} (positive : 0 < parts) :
    Tiling (fun t => parts * start (t / parts)) (fun t => parts * finish (t / parts) + (parts - 1)) where
  begun t := by
    have begun := mul_le_mul_of_nonneg_left (tiling.begun (t / parts)) positive.le
    have quotient := Int.mul_ediv_self_le (ne_of_gt positive) (x := t)
    omega
  lasting t := by
    have lasting := mul_le_mul_of_nonneg_left (tiling.lasting (t / parts)) positive.le
    have quotient := Int.lt_mul_ediv_self_add positive (x := t)
    omega
  same s t := by
    intro before behind
    have low : start (t / parts) ≤ s / parts := (Int.le_ediv_iff_mul_le positive).mpr (by linarith)
    have high : s / parts < finish (t / parts) + 1 := (Int.ediv_lt_iff_lt_mul positive).mpr (by linarith)
    rw [tiling.same _ _ low (by omega)]
  finish_eq s t := by
    intro equal
    have equal' := mul_left_cancel₀ (ne_of_gt positive) equal
    rw [tiling.finish_eq _ _ equal']

theorem shift (tiling : Tiling start finish) (amount : Int) :
    Tiling (fun t => start (t + amount) - amount) (fun t => finish (t + amount) - amount) where
  begun t := by
    have begun := tiling.begun (t + amount)
    omega
  lasting t := by
    have lasting := tiling.lasting (t + amount)
    omega
  same s t := by
    intro before behind
    rw [tiling.same (s + amount) (t + amount) (by omega) (by omega)]
  finish_eq s t := by
    intro equal
    rw [tiling.finish_eq (s + amount) (t + amount) (by omega)]

end Tiling
end Call45Aggr.Library
