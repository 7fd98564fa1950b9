import Call45Aggr.Library.BinarySearch
import Mathlib.Data.List.Perm.Basic
import Mathlib.Data.List.Pairwise
import Mathlib.Algebra.Order.Group.Unbundled.Int

/-! `timed_vector`: values by ranges of time, inserted by the start of their range and found by its end. -/
namespace Call45Aggr
open Library

structure TimedStorage (V : Type) where
  dateStart : Int
  dateEnd : Int
  value : V

abbrev TimedVector (V : Type) := List (TimedStorage V)

namespace TimedVector
variable {V : Type}

/-- `std::lower_bound` on the starts. -/
def findByStart (v : TimedVector V) (start : Int) : Nat :=
  partitionPoint (fun storage => storage.dateStart < start) v

def insertRange (v : TimedVector V) (start finish : Int) (value : V) : TimedVector V :=
  v.insertIdx (v.findByStart start) ⟨start,finish,value⟩

/-- `std::upper_bound` on the ends; the comparison with the end of what it finds is that of the source. -/
def findValue [Inhabited V] (v : TimedVector V) (time : Int) : V :=
  match v[partitionPoint (fun storage => !decide (storage.dateEnd > time)) v]? with
  | none => default
  | some it => if it.dateEnd < time then default else it.value

def fill (ranges : List (TimedStorage V)) : TimedVector V :=
  ranges.foldl (fun v range => v.insertRange range.dateStart range.dateEnd range.value) []

/-- Ranges that are not empty, one before the other. -/
def Chained (v : TimedVector V) : Prop :=
  v.Pairwise (fun x y => x.dateEnd ≤ y.dateStart) ∧ ∀ storage ∈ v, storage.dateStart < storage.dateEnd

def Disjoint (x y : TimedStorage V) : Prop := x.dateEnd ≤ y.dateStart ∨ y.dateEnd ≤ x.dateStart

theorem insertRange_split {left right : TimedVector V} {range : TimedStorage V}
    (before : ∀ x ∈ left, x.dateStart < range.dateStart) (behind : ∀ x ∈ right, range.dateStart ≤ x.dateStart) :
    insertRange (left ++ right) range.dateStart range.dateEnd range.value = left ++ range :: right := by
  have place : findByStart (left ++ right) range.dateStart = left.length :=
    partitionPoint_append (fun x member => by simpa using before x member)
      fun x member => by simpa using behind x member
  rw [insertRange,place]
  clear before place
  induction left with
  | nil => rfl
  | cons x left ih => exact congrArg (x :: ·) ih

theorem insertRange_chained {v : TimedVector V} {range : TimedStorage V} (chained : v.Chained)
    (proper : range.dateStart < range.dateEnd) (apart : ∀ x ∈ v, Disjoint x range) :
    (v.insertRange range.dateStart range.dateEnd range.value).Chained ∧
      (v.insertRange range.dateStart range.dateEnd range.value).Perm (range :: v) := by
  let before : TimedStorage V → Bool := fun x => x.dateStart < range.dateStart
  have ordered : v.Pairwise fun x y => before y = true → before x = true := by
    refine chained.1.imp_of_mem fun {x y} inside _ follows late => ?_
    have filled := chained.2 x inside
    simp only [before,decide_eq_true_eq] at late ⊢
    omega
  obtain ⟨left,right,rfl,-,holds,fails⟩ := partitionPoint_split ordered
  have early : ∀ x ∈ left, x.dateStart < range.dateStart := fun x member => by simpa [before] using holds x member
  have late : ∀ x ∈ right, range.dateStart ≤ x.dateStart := fun x member => by simpa [before] using fails x member
  rw [insertRange_split early late]
  refine ⟨⟨?_,?_⟩,List.perm_middle⟩
  · obtain ⟨first,second,between⟩ := List.pairwise_append.mp chained.1
    refine List.pairwise_append.mpr ⟨first,List.pairwise_cons.mpr ⟨?_,second⟩,?_⟩
    · intro y inside
      have filled := chained.2 y (List.mem_append_right _ inside)
      have behind := late y inside
      rcases apart y (List.mem_append_right _ inside) with order | order
      · omega
      · exact order
    · intro x inside y other
      rcases List.mem_cons.mp other with rfl | other
      · have ahead := early x inside
        rcases apart x (List.mem_append_left _ inside) with order | order
        · exact order
        · omega
      · exact between x inside y other
  · intro x inside
    rcases List.mem_append.mp inside with inside | inside
    · exact chained.2 x (List.mem_append_left _ inside)
    · rcases List.mem_cons.mp inside with rfl | inside
      · exact proper
      · exact chained.2 x (List.mem_append_right _ inside)

theorem foldl_chained {v : TimedVector V} {ranges : List (TimedStorage V)} (chained : v.Chained)
    (proper : ∀ range ∈ ranges, range.dateStart < range.dateEnd)
    (apart : (v ++ ranges).Pairwise Disjoint) :
    let filled := ranges.foldl (fun v range => v.insertRange range.dateStart range.dateEnd range.value) v
    filled.Chained ∧ filled.Perm (v ++ ranges) := by
  induction ranges generalizing v with
  | nil => simpa using chained
  | cons range ranges ih =>
    obtain ⟨filled,proper⟩ := List.forall_mem_cons.mp proper
    obtain ⟨-,-,between⟩ := List.pairwise_append.mp apart
    obtain ⟨next,perm⟩ := insertRange_chained chained filled fun x inside => between x inside range List.mem_cons_self
    have moved : (v.insertRange range.dateStart range.dateEnd range.value ++ ranges).Perm (v ++ range :: ranges) :=
      (perm.append_right ranges).trans List.perm_middle.symm
    have symmetric : ∀ {x y : TimedStorage V}, Disjoint x y → Disjoint y x := Or.symm
    obtain ⟨sorted,same⟩ := ih next proper ((moved.pairwise_iff symmetric).mpr apart)
    exact ⟨sorted,same.trans moved⟩

variable {ranges : List (TimedStorage V)}

theorem fill_chained (proper : ∀ range ∈ ranges, range.dateStart < range.dateEnd)
    (apart : ranges.Pairwise Disjoint) : (fill ranges).Chained ∧ (fill ranges).Perm ranges :=
  foldl_chained ⟨.nil,by simp⟩ proper apart

/-- The first range that ends after the time. -/
structure Next (ranges : List (TimedStorage V)) (time : Int) (range : TimedStorage V) : Prop where
  member : range ∈ ranges
  ends : time < range.dateEnd
  first : ∀ other ∈ ranges, time < other.dateEnd → range.dateEnd ≤ other.dateEnd

theorem find?_next {v : TimedVector V} (chained : v.Chained) {time : Int} {range : TimedStorage V}
    (found : v.find? (fun storage => time < storage.dateEnd) = some range) : Next v time range := by
  obtain ⟨ends,left,right,rfl,earlier⟩ := List.find?_eq_some_iff_append.mp found
  refine ⟨by simp,by simpa using ends,fun other member after => ?_⟩
  rcases List.mem_append.mp member with member | member
  · exact absurd after (by simpa using earlier other member)
  · rcases List.mem_cons.mp member with rfl | member
    · exact le_rfl
    · have behind := (List.pairwise_cons.mp (List.pairwise_append.mp chained.1).2.1).1 other member
      have filled := chained.2 other (by simp [member])
      omega

/-- The lookup returns the value of the first range that ends after the time, wherever it starts. -/
theorem findValue_eq [Inhabited V] {v : TimedVector V} (chained : v.Chained) (time : Int) :
    v.findValue time = ((v.find? fun storage => time < storage.dateEnd).map (·.value)).getD default := by
  have ordered : v.Pairwise fun x y => (!decide (y.dateEnd > time)) = true → (!decide (x.dateEnd > time)) = true := by
    refine chained.1.imp_of_mem fun {x y} _ inside follows late => ?_
    have filled := chained.2 y inside
    simp only [Bool.not_eq_true',decide_eq_false_iff_not] at late ⊢
    omega
  have place : v[partitionPoint (fun storage => !decide (storage.dateEnd > time)) v]? =
      v.find? fun storage => time < storage.dateEnd := by
    rw [getElem?_partitionPoint ordered]
    simp
  rw [findValue,place]
  cases found : v.find? fun storage => time < storage.dateEnd with
  | none => rfl
  | some it =>
    have ends := (find?_next chained found).ends
    exact if_neg (by omega)

/-- The value of the range that the time lies in. -/
def valueAt [Inhabited V] (ranges : List (TimedStorage V)) (time : Int) : V :=
  ((ranges.find? fun range => range.dateStart ≤ time ∧ time < range.dateEnd).map (·.value)).getD default

theorem valueAt_past [Inhabited V] {time : Int} (past : ∀ range ∈ ranges, ¬time < range.dateEnd) :
    valueAt ranges time = default := by
  have outside : (ranges.find? fun range => range.dateStart ≤ time ∧ time < range.dateEnd) = none := by
    refine List.find?_eq_none.mpr fun range member inside => past range member ?_
    exact (of_decide_eq_true inside).2
  rw [valueAt,outside]
  rfl

theorem same_of_overlap (apart : ranges.Pairwise Disjoint) {x y : TimedStorage V} (first : x ∈ ranges)
    (second : y ∈ ranges) (overlap : ¬Disjoint x y) : x = y := by
  have symmetric : Std.Symm (@Disjoint V) := ⟨fun _ _ => Or.symm⟩
  by_contra other
  exact overlap (apart.forall first second other)

theorem next_unique (proper : ∀ range ∈ ranges, range.dateStart < range.dateEnd) (apart : ranges.Pairwise Disjoint)
    {time : Int} {x y : TimedStorage V} (first : Next ranges time x) (second : Next ranges time y) : x = y := by
  refine same_of_overlap apart first.member second.member ?_
  have least := first.first y second.member second.ends
  have least' := second.first x first.member first.ends
  have filled := proper x first.member
  have filled' := proper y second.member
  unfold Disjoint
  omega

/-- A time lies in no range but the next one to end. -/
theorem valueAt_eq [Inhabited V] (proper : ∀ range ∈ ranges, range.dateStart < range.dateEnd)
    (apart : ranges.Pairwise Disjoint) {time : Int} {range : TimedStorage V} (next : Next ranges time range) :
    valueAt ranges time = if range.dateStart ≤ time then range.value else default := by
  have covers {other : TimedStorage V} (member : other ∈ ranges) (inside : other.dateStart ≤ time)
      (ends : time < other.dateEnd) : other = range := by
    refine same_of_overlap apart member next.member ?_
    have least := next.first other member ends
    have after := next.ends
    have filled := proper range next.member
    unfold Disjoint
    omega
  unfold valueAt
  cases found : ranges.find? fun range => range.dateStart ≤ time ∧ time < range.dateEnd with
  | none =>
    have outside := List.find?_eq_none.mp found range next.member
    have late : ¬range.dateStart ≤ time := by simpa [next.ends] using outside
    simp [late]
  | some other =>
    have inside := List.find?_some found
    simp only [decide_eq_true_eq] at inside
    have same := covers (List.mem_of_find?_eq_some found) inside.1 inside.2
    rw [same] at inside
    simp [same,inside.1]

/-- The elements stay sorted, and the lookup is right exactly where the first range that ends after the
time has begun or holds the default value. -/
theorem findValue_iff [Inhabited V] (ranges : List (TimedStorage V))
    (proper : ∀ range ∈ ranges, range.dateStart < range.dateEnd) (apart : ranges.Pairwise Disjoint) :
    (fill ranges).Pairwise (fun x y => x.dateStart < y.dateStart) ∧ (fill ranges).Perm ranges ∧
      ∀ time, (fill ranges).findValue time = valueAt ranges time ↔
        ∀ range, Next ranges time range → range.dateStart ≤ time ∨ range.value = default := by
  obtain ⟨chained,perm⟩ := fill_chained proper apart
  refine ⟨chained.1.imp_of_mem fun {x y} inside _ follows => ?_,perm,fun time => ?_⟩
  · have filled := chained.2 x inside
    omega
  rw [findValue_eq chained]
  cases found : (fill ranges).find? fun storage => time < storage.dateEnd with
  | none =>
    have past : ∀ range ∈ ranges, ¬time < range.dateEnd := fun range member => by
      simpa using List.find?_eq_none.mp found range (perm.mem_iff.mpr member)
    exact iff_of_true (valueAt_past past).symm fun range next => absurd next.ends (past range next.member)
  | some range =>
    obtain ⟨member,ends,first⟩ := find?_next chained found
    have next : Next ranges time range :=
      ⟨perm.mem_iff.mp member,ends,fun other inside => first other (perm.mem_iff.mpr inside)⟩
    have single : (∀ other, Next ranges time other → other.dateStart ≤ time ∨ other.value = default) ↔
        range.dateStart ≤ time ∨ range.value = default := by
      constructor
      · exact fun holds => holds range next
      · intro holds other another
        rw [next_unique proper apart another next]
        exact holds
    rw [valueAt_eq proper apart next,single]
    split
    next begun => simp [begun]
    next later => simp [later]

theorem findValue_adjacent : let ranges : List (TimedStorage Nat) := [⟨10,20,7⟩,⟨0,10,3⟩]
    (fill ranges).Pairwise (fun x y => x.dateStart < y.dateStart) ∧ (fill ranges).findValue 9 = valueAt ranges 9 := by
  intro ranges
  have proper : ∀ range ∈ ranges, range.dateStart < range.dateEnd := by simp [ranges]
  have apart : ranges.Pairwise Disjoint := by simp [ranges,Disjoint]
  obtain ⟨sorted,-,lookup⟩ := findValue_iff ranges proper apart
  refine ⟨sorted,(lookup 9).mpr fun range next => .inl ?_⟩
  have first := next.first ⟨0,10,3⟩ (by simp [ranges]) (by decide)
  have member := next.member
  simp only [ranges,List.mem_cons,List.not_mem_nil,or_false] at member
  rcases member with rfl | rfl
  · exact absurd first (by decide)
  · decide

/-- A time before the first range gets its value. -/
theorem gap_filled : ¬∀ ranges : List (TimedStorage Nat), (∀ range ∈ ranges, range.dateStart < range.dateEnd) →
    ranges.Pairwise Disjoint → (fill ranges).Pairwise (fun x y => x.dateStart < y.dateStart) ∧
      ∀ time, (fill ranges).findValue time = valueAt ranges time := by
  intro correct
  obtain ⟨-,lookup⟩ := correct [⟨10,20,7⟩] (by simp) (by simp)
  exact absurd (lookup 5) (by decide)

end TimedVector
end Call45Aggr
