import Mathlib.Algebra.Order.Group.Basic
import Mathlib.Algebra.Order.BigOperators.Group.List
import Mathlib.Tactic.Abel

/-! Work done in spans of time one after the other, where each span keeps the pace since
the start of some span before it, and what that says of all of them together. -/
namespace Call45Aggr.Library

structure Span (α : Type) where
  start : α
  finish : α
  work : α

variable {α : Type} [AddCommGroup α] [LinearOrder α] [IsOrderedAddMonoid α]

def Span.length (span : Span α) : α := span.finish - span.start

/-- The newest span stands first. -/
inductive Paced (slack : α) : List (Span α) → Prop
  | first (span : Span α) (forward : span.start ≤ span.finish) : Paced slack [span]
  | next (span last : Span α) (earlier : List (Span α)) (before : Paced slack (last :: earlier))
      (later : last.finish ≤ span.start) (forward : span.start ≤ span.finish) (behind : Span α)
      (member : behind ∈ last :: earlier)
      (kept : span.work - behind.work ≤ span.finish - behind.start + slack) :
      Paced slack (span :: last :: earlier)

namespace Paced
variable {slack : α} {spans : List (Span α)}

theorem length_nonneg (paced : Paced slack spans) : ∀ span ∈ spans, 0 ≤ span.length := by
  induction paced with
  | first span forward =>
    intro other member
    cases List.mem_singleton.mp member
    exact sub_nonneg.mpr forward
  | next span last earlier before later forward behind member kept ih =>
    intro other inside
    rcases List.mem_cons.mp inside with rfl | inside
    · exact sub_nonneg.mpr forward
    · exact ih other inside

theorem sum_suffix (paced : Paced slack spans) {part : List (Span α)} (suffix : part <:+ spans) :
    (part.map Span.length).sum ≤ (spans.map Span.length).sum := by
  obtain ⟨front,rfl⟩ := suffix
  rw [List.map_append,List.sum_append]
  refine le_add_of_nonneg_left (List.sum_nonneg fun length member => ?_)
  obtain ⟨span,inside,rfl⟩ := List.mem_map.mp member
  exact paced.length_nonneg span (List.mem_append_left part inside)

/-- The time of the span behind is counted twice, in its own pace and in that of the
newest; so the spans before come on top of the time that has passed. -/
theorem work_le (paced : Paced slack spans) (nonneg : 0 ≤ slack) {first : Span α}
    (begins : spans.getLast? = some first) : ∀ span earlier, span :: earlier <:+ spans →
      span.work - first.work ≤
        span.finish - first.start + (earlier.map Span.length).sum + earlier.length • slack := by
  induction paced with
  | first span forward =>
    intro other earlier suffix
    have same : other :: earlier = [span] := by
      rcases List.suffix_cons_iff.mp suffix with whole | none
      · exact whole
      · exact absurd (List.suffix_nil.mp none) (by simp)
    cases same
    cases begins
    simpa using forward
  | next span last earlier before later forward behind member kept ih =>
    have begins : (last :: earlier).getLast? = some first := by simpa using begins
    intro other others suffix
    rcases List.suffix_cons_iff.mp suffix with whole | inside
    · cases whole
      obtain ⟨front,tail,split⟩ := List.append_of_mem member
      have suffix : behind :: tail <:+ last :: earlier := ⟨front,split.symm⟩
      have reached := ih begins behind tail suffix
      have times : behind.length + (tail.map Span.length).sum ≤ ((last :: earlier).map Span.length).sum := by
        simpa using before.sum_suffix suffix
      have count : (tail.length + 1) • slack ≤ (last :: earlier).length • slack :=
        nsmul_le_nsmul_left nonneg suffix.length_le
      calc span.work - first.work
          = (span.work - behind.work) + (behind.work - first.work) := by abel
        _ ≤ (span.finish - behind.start + slack) +
              (behind.finish - first.start + (tail.map Span.length).sum + tail.length • slack) :=
            add_le_add kept reached
        _ = span.finish - first.start + (behind.length + (tail.map Span.length).sum) +
              (tail.length + 1) • slack := by
            rw [Span.length,succ_nsmul]
            abel
        _ ≤ span.finish - first.start + ((last :: earlier).map Span.length).sum +
              (last :: earlier).length • slack := by
            gcongr
    · exact ih begins other others inside

/-- The spans lie apart, so together they are no longer than the time they lie in. -/
theorem sum_le (paced : Paced slack spans) {first last : Span α} (begins : spans.getLast? = some first)
    (ends : spans.head? = some last) : (spans.map Span.length).sum ≤ last.finish - first.start := by
  induction paced generalizing last with
  | first span forward =>
    cases begins
    cases ends
    simp [Span.length]
  | next span newest earlier before later forward behind member kept ih =>
    cases ends
    have reached := ih (by simpa using begins) rfl
    calc ((span :: newest :: earlier).map Span.length).sum
        = span.length + ((newest :: earlier).map Span.length).sum := by simp
      _ ≤ (span.finish - newest.finish) + (newest.finish - first.start) :=
          add_le_add (sub_le_sub_left later span.finish) reached
      _ = span.finish - first.start := by abel

end Paced
end Call45Aggr.Library
