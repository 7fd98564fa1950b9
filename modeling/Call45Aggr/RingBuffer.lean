import Mathlib.Data.List.DropRight
import Mathlib.Data.Nat.ModEq

/-! The bounded buffer of `RingBuffer.h`: a push into a full one overwrites the oldest
element, and `copy_to` reads from the oldest to the newest. -/
namespace Call45Aggr

/-- A slot outside the ring holds whatever it held. -/
structure RingBuffer (α : Type) (S : Nat) where
  buffer : Vector α S
  size : Nat
  frontIndex : Nat
  backIndex : Nat
  size_le : size ≤ S
  front_lt : frontIndex < S
  back_lt : backIndex < S
  back_next : (backIndex + 1) % S = (frontIndex + size) % S

namespace RingBuffer
variable {α : Type} {S : Nat}

def clear (positive : 0 < S) (buffer : Vector α S) : RingBuffer α S where
  buffer
  size := 0
  frontIndex := 0
  backIndex := S - 1
  size_le := Nat.zero_le S
  front_lt := positive
  back_lt := Nat.sub_one_lt_of_lt positive
  back_next := by simp [Nat.sub_add_cancel positive]

theorem pos (ring : RingBuffer α S) : 0 < S := Nat.zero_lt_of_lt ring.front_lt

def front (ring : RingBuffer α S) : α :=
  have inside := ring.front_lt
  ring.buffer[ring.frontIndex]

def back (ring : RingBuffer α S) : α :=
  have inside := ring.back_lt
  ring.buffer[ring.backIndex]

/-- An assignment through `back()`. -/
def setBack (ring : RingBuffer α S) (x : α) : RingBuffer α S :=
  {ring with buffer := ring.buffer.set ring.backIndex x ring.back_lt}

/-- `push()`: the new back keeps what its slot held. -/
def advance (ring : RingBuffer α S) : RingBuffer α S where
  buffer := ring.buffer
  size := if ring.size = S then ring.size else ring.size + 1
  frontIndex := if ring.size = S then (ring.frontIndex + 1) % S else ring.frontIndex
  backIndex := (ring.backIndex + 1) % S
  size_le := by
    have bounded := ring.size_le
    split <;> omega
  front_lt := by
    split
    · exact Nat.mod_lt _ ring.pos
    · exact ring.front_lt
  back_lt := Nat.mod_lt _ ring.pos
  back_next := by
    rw [Nat.mod_add_mod]
    split
    next full => rw [Nat.mod_add_mod,← Nat.mod_add_mod,ring.back_next,Nat.mod_add_mod,Nat.add_right_comm]
    next => rw [← Nat.mod_add_mod,ring.back_next,Nat.mod_add_mod,Nat.add_assoc]

def push (ring : RingBuffer α S) (x : α) : RingBuffer α S := ring.advance.setBack x

def pop (ring : RingBuffer α S) : RingBuffer α S :=
  if filled : 0 < ring.size then {
    buffer := ring.buffer
    size := ring.size - 1
    frontIndex := (ring.frontIndex + 1) % S
    backIndex := ring.backIndex
    size_le := Nat.le_trans (Nat.sub_le ring.size 1) ring.size_le
    front_lt := Nat.mod_lt _ ring.pos
    back_lt := ring.back_lt
    back_next := by
      have whole : ring.frontIndex + 1 + (ring.size - 1) = ring.frontIndex + ring.size := by omega
      rw [Nat.mod_add_mod,whole,ring.back_next]}
  else ring

def slot (ring : RingBuffer α S) (idx : Nat) : α :=
  have inside := Nat.mod_lt idx ring.pos
  ring.buffer[idx % S]

def copyFrom (ring : RingBuffer α S) (idx : Nat) : Nat → List α
  | 0 => []
  | rest + 1 => ring.slot idx :: ring.copyFrom (idx % S + 1) rest

def copyTo (ring : RingBuffer α S) : List α := ring.copyFrom ring.frontIndex ring.size

theorem slot_congr (ring : RingBuffer α S) {i j : Nat} (same : i % S = j % S) : ring.slot i = ring.slot j := by
  simp only [slot,same]

theorem copyFrom_eq (ring : RingBuffer α S) (idx count : Nat) :
    ring.copyFrom idx count = (List.range count).map fun i => ring.slot (idx + i) := by
  induction count generalizing idx with
  | zero => rfl
  | succ count ih =>
    rw [copyFrom,ih,List.range_succ_eq_map,List.map_cons,List.map_map]
    refine congrArg (ring.slot idx :: ·) (List.map_congr_left fun i _ => ?_)
    apply ring.slot_congr
    rw [Nat.add_assoc,Nat.mod_add_mod,Nat.add_comm 1 i]

@[simp] theorem length_copyTo (ring : RingBuffer α S) : ring.copyTo.length = ring.size := by
  simp [copyTo,copyFrom_eq]

theorem add_mod_inj {front i j : Nat} (first : i < S) (second : j < S)
    (same : (front + i) % S = (front + j) % S) : i = j := by
  have cancelled : i ≡ j [MOD S] := Nat.ModEq.add_left_cancel' front same
  rwa [Nat.ModEq,Nat.mod_eq_of_lt first,Nat.mod_eq_of_lt second] at cancelled

/-- The back is the last of the elements. -/
theorem back_mod (ring : RingBuffer α S) {count : Nat} (filled : ring.size = count + 1) :
    ring.backIndex = (ring.frontIndex + count) % S := by
  have next := ring.back_next
  rw [filled,← Nat.add_assoc] at next
  have cancelled : ring.backIndex ≡ ring.frontIndex + count [MOD S] := Nat.ModEq.add_right_cancel' 1 next
  rwa [Nat.ModEq,Nat.mod_eq_of_lt ring.back_lt] at cancelled

theorem slot_setBack (ring : RingBuffer α S) (x : α) (idx : Nat) :
    (ring.setBack x).slot idx = if idx % S = ring.backIndex then x else ring.slot idx := by
  simp [setBack,slot,Vector.getElem_set,eq_comm]

/-- Elements before the back are out of the reach of an assignment to it. -/
theorem copyTo_setBack (ring : RingBuffer α S) {count : Nat} (filled : ring.size = count + 1) (x : α) :
    (ring.setBack x).copyTo = (List.range count).map (fun i => ring.slot (ring.frontIndex + i)) ++ [x] := by
  have bounded := ring.size_le
  have back := ring.back_mod filled
  have split : (ring.setBack x).copyTo =
      (List.range (count + 1)).map fun i => (ring.setBack x).slot (ring.frontIndex + i) := by
    rw [copyTo,copyFrom_eq]
    simp only [setBack,filled]
  rw [split,List.range_succ,List.map_append,List.map_singleton,slot_setBack,if_pos back.symm]
  congr 1
  refine List.map_congr_left fun i member => ?_
  have before : i < count := List.mem_range.mp member
  rw [slot_setBack,if_neg]
  intro same
  have := add_mod_inj (by omega) (by omega) (same.trans back)
  omega

theorem copyTo_filled (ring : RingBuffer α S) {count : Nat} (filled : ring.size = count + 1) :
    ring.copyTo = (List.range count).map (fun i => ring.slot (ring.frontIndex + i)) ++ [ring.back] := by
  rw [copyTo,copyFrom_eq,filled,List.range_succ,List.map_append,List.map_singleton]
  simp [slot,back,ring.back_mod filled]

theorem copyTo_setBack_eq (ring : RingBuffer α S) (filled : 0 < ring.size) (x : α) :
    (ring.setBack x).copyTo = ring.copyTo.dropLast ++ [x] := by
  obtain ⟨count,size⟩ := Nat.exists_eq_add_one.mpr filled
  rw [ring.copyTo_setBack size,ring.copyTo_filled size,List.dropLast_concat]

theorem copyTo_push_room (ring : RingBuffer α S) (room : ring.size < S) (x : α) :
    (ring.push x).copyTo = ring.copyTo ++ [x] := by
  have grown : ring.advance.size = ring.size + 1 := if_neg room.ne
  have kept : ring.advance.frontIndex = ring.frontIndex := if_neg room.ne
  rw [push,ring.advance.copyTo_setBack grown,kept,copyTo,copyFrom_eq]
  rfl

/-- The oldest element goes: the front moves on to the one after it. -/
theorem copyTo_push_full (ring : RingBuffer α S) (full : ring.size = S) (x : α) :
    (ring.push x).copyTo = ring.copyTo.tail ++ [x] := by
  obtain ⟨count,size⟩ := Nat.exists_eq_add_one.mpr ring.pos
  have filled : ring.size = count + 1 := full.trans size
  have still : ring.advance.size = count + 1 := (if_pos full).trans filled
  have moved : ring.advance.frontIndex = (ring.frontIndex + 1) % S := if_pos full
  rw [push,ring.advance.copyTo_setBack still,moved,copyTo,copyFrom_eq,filled,
    List.range_succ_eq_map,List.map_cons,List.tail_cons,List.map_map]
  congr 1
  refine List.map_congr_left fun i _ => ?_
  apply ring.slot_congr
  rw [Nat.mod_add_mod,Nat.add_assoc,Nat.add_comm 1 i]

theorem copyTo_push (ring : RingBuffer α S) (x : α) :
    (ring.push x).copyTo = (ring.copyTo ++ [x]).rtake S := by
  rcases Nat.lt_or_eq_of_le ring.size_le with room | full
  · have none : (ring.copyTo ++ [x]).length - S = 0 := by
      rw [List.length_append,length_copyTo]
      exact Nat.sub_eq_zero_of_le room
    rw [ring.copyTo_push_room room,List.rtake,none,List.drop_zero]
  · have oldest : (ring.copyTo ++ [x]).length - S = 1 := by simp [full]
    have filled : 1 ≤ ring.copyTo.length := by
      rw [length_copyTo,full]
      exact ring.pos
    rw [ring.copyTo_push_full full,List.rtake,oldest,List.drop_append_of_le_length filled,List.drop_one]

theorem pop_filled {ring : RingBuffer α S} (filled : 0 < ring.size) :
    ring.pop.buffer = ring.buffer ∧ ring.pop.size = ring.size - 1 ∧
      ring.pop.frontIndex = (ring.frontIndex + 1) % S := by
  simp [pop,filled]

theorem copyTo_pop (ring : RingBuffer α S) : ring.pop.copyTo = ring.copyTo.tail := by
  cases filled : ring.size with
  | zero => simp [pop,filled,copyTo,copyFrom]
  | succ count =>
    obtain ⟨buffer,size,front⟩ := pop_filled (Nat.lt_of_lt_of_eq count.succ_pos filled.symm)
    have left : ring.pop.size = count := by
      rw [size,filled,Nat.add_sub_cancel]
    have slots (i : Nat) : ring.pop.slot i = ring.slot i := by
      simp only [slot,buffer]
    rw [copyTo,copyFrom_eq,left,front,copyTo,copyFrom_eq,filled,List.range_succ_eq_map,List.map_cons,
      List.tail_cons,List.map_map]
    refine List.map_congr_left fun i _ => ?_
    rw [slots]
    apply ring.slot_congr
    rw [Nat.mod_add_mod,Nat.add_assoc,Nat.add_comm 1 i]

theorem copyTo_clear (positive : 0 < S) (buffer : Vector α S) : (clear positive buffer).copyTo = [] := rfl

theorem head?_copyTo (ring : RingBuffer α S) (filled : ring.copyTo ≠ []) : ring.copyTo.head? = some ring.front := by
  cases size : ring.size with
  | zero => exact absurd (List.length_eq_zero_iff.mp (ring.length_copyTo.trans size)) filled
  | succ count =>
    rw [copyTo,size]
    simp [copyFrom,slot,front,Nat.mod_eq_of_lt ring.front_lt]

theorem getLast?_copyTo (ring : RingBuffer α S) (filled : ring.copyTo ≠ []) :
    ring.copyTo.getLast? = some ring.back := by
  cases size : ring.size with
  | zero => exact absurd (List.length_eq_zero_iff.mp (ring.length_copyTo.trans size)) filled
  | succ count => rw [ring.copyTo_filled size,List.getLast?_concat]

inductive Operation (α : Type)
  | push (x : α)
  | pop
  | clear

def apply (ring : RingBuffer α S) : Operation α → RingBuffer α S
  | .push x => ring.push x
  | .pop => ring.pop
  | .clear => clear ring.pos ring.buffer

/-- The queue that drops its oldest element when it is full. -/
def queued (S : Nat) (contents : List α) : Operation α → List α
  | .push x => if contents.length = S then contents.tail ++ [x] else contents ++ [x]
  | .pop => contents.tail
  | .clear => []

theorem copyTo_apply (ring : RingBuffer α S) (operation : Operation α) :
    (ring.apply operation).copyTo = queued S ring.copyTo operation := by
  cases operation with
  | push x =>
    rw [queued,length_copyTo]
    split
    next full => exact ring.copyTo_push_full full x
    next other => exact ring.copyTo_push_room (Nat.lt_of_le_of_ne ring.size_le other) x
  | pop => exact ring.copyTo_pop
  | clear => exact copyTo_clear ring.pos ring.buffer

/-- The buffer that was built over some memory, after the operations. -/
def perform (positive : 0 < S) (buffer : Vector α S) (operations : List (Operation α)) : RingBuffer α S :=
  operations.foldl apply (clear positive buffer)

def queue (S : Nat) (operations : List (Operation α)) : List α := operations.foldl (queued S) []

theorem copyTo_foldl (ring : RingBuffer α S) (operations : List (Operation α)) :
    (operations.foldl apply ring).copyTo = operations.foldl (queued S) ring.copyTo := by
  induction operations generalizing ring with
  | nil => rfl
  | cons operation operations ih => rw [List.foldl_cons,List.foldl_cons,ih,copyTo_apply]

/-- After any sequence of operations the buffer holds what the queue holds, in its order. -/
theorem bounded_fifo (positive : 0 < S) (buffer : Vector α S) (operations : List (Operation α)) :
    (perform positive buffer operations).copyTo = queue S operations ∧
      (perform positive buffer operations).size = (queue S operations).length ∧
      (queue S operations ≠ [] →
        (queue S operations).head? = some (perform positive buffer operations).front ∧
        (queue S operations).getLast? = some (perform positive buffer operations).back) := by
  have same : (perform positive buffer operations).copyTo = queue S operations := by
    rw [perform,copyTo_foldl,copyTo_clear,queue]
  rw [← same]
  refine ⟨rfl,(length_copyTo _).symm,fun filled => ⟨?_,?_⟩⟩
  · exact head?_copyTo _ filled
  · exact getLast?_copyTo _ filled

/-- The third push drops the first element, the pop the second. -/
theorem bounded_fifo_two :
    (perform (by decide) #v[0,0] [.push 1,.push 2,.push 3,.pop,.push 4] : RingBuffer Nat 2).copyTo = [3,4] ∧
      (perform (by decide) #v[0,0] [.push 1,.push 2,.push 3,.pop,.push 4] : RingBuffer Nat 2).front = 3 := by
  obtain ⟨copied,-,ends⟩ := @bounded_fifo Nat 2 (by decide) #v[0,0]
    [.push 1,.push 2,.push 3,.pop,.push 4]
  exact ⟨copied,(Option.some.inj (ends (by decide)).1).symm⟩

end RingBuffer
end Call45Aggr
