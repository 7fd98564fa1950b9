import Call45Aggr.RingBuffer
import Call45Aggr.Timer
import Mathlib.Algebra.Order.Floor.Defs
import Mathlib.Data.Rat.Floor
import Mathlib.Data.List.Chain

/-! `SpeedLimiter`: the ring of its reper points against the list that they stand for. -/
namespace Call45Aggr

structure ReperPoint where
  time : Timespec := {}
  totalBytesRead : UInt64 := 0
  deriving DecidableEq, Inhabited

structure SpeedLimiter where
  isEnabled : Bool
  secondsPerByte : Rat
  minSecondsBetweenReperPoints : Rat
  queue : Vector ReperPoint 128 := .replicate 128 {}
  queueSize : UInt64 := 0
  tailIndex : UInt64 := 0
  totalBytesRead : UInt64 := 0

theorem toNat_mask (i : UInt64) : (i &&& 127).toNat = i.toNat % 128 := by
  rw [UInt64.toNat_and]
  exact Nat.and_two_pow_sub_one_eq_mod i.toNat 7

theorem mask_lt (i : UInt64) : (i &&& 127).toNat < 128 := by
  rw [toNat_mask]
  exact Nat.mod_lt _ (by decide)

namespace SpeedLimiter

def new (bandwidthLimitMbits minSecondsBetweenReperPoints : Rat) : SpeedLimiter where
  isEnabled := decide (0 < bandwidthLimitMbits)
  secondsPerByte := 1 / (bandwidthLimitMbits * 1024 * 1024 / 8)
  minSecondsBetweenReperPoints := minSecondsBetweenReperPoints

/-- `queue[i & index_wrap_mask]` -/
def slot (s : SpeedLimiter) (i : UInt64) : ReperPoint :=
  have inside := mask_lt i
  s.queue[(i &&& 127).toNat]

def firstIndex (s : SpeedLimiter) : UInt64 := s.tailIndex - s.queueSize + 1

def first (s : SpeedLimiter) : ReperPoint := s.slot s.firstIndex

def penult (s : SpeedLimiter) : ReperPoint := s.slot (s.tailIndex - 1)

/-- Nothing masks the index here; one outside the queue is undefined behaviour. -/
def last (s : SpeedLimiter) : Option ReperPoint := s.queue[s.tailIndex.toNat]?

def setLast (s : SpeedLimiter) (point : ReperPoint) : Option SpeedLimiter :=
  if inside : s.tailIndex.toNat < 128 then some {s with queue := s.queue.set s.tailIndex.toNat point inside}
  else none

def remainingTime (s : SpeedLimiter) (start finish : ReperPoint) : Rat :=
  (finish.totalBytesRead - start.totalBytesRead).toNat * s.secondsPerByte - secondsBetween start.time finish.time

def requestedTime (timeToSleep : Rat) : Timespec where
  sec := ⌊timeToSleep⌋
  nsec := ⌊1000000000 * (timeToSleep - ⌊timeToSleep⌋)⌋

/-- What `nanosleep` is asked for. -/
def pause (s : SpeedLimiter) (last : ReperPoint) : Option Timespec :=
  if s.queueSize ≤ 1 then none
  else if s.remainingTime s.first last ≤ 0 then none
  else some (requestedTime (s.remainingTime s.first last))

def isTailToBeOverride (s : SpeedLimiter) : Option Bool :=
  if 1 < s.queueSize then
    s.last.map fun last => decide (secondsBetween s.penult.time last.time < s.minSecondsBetweenReperPoints)
  else some false

def advanced (s : SpeedLimiter) : SpeedLimiter :=
  {s with
    queueSize := if s.queueSize + 1 < 128 then s.queueSize + 1 else 128
    tailIndex := (s.tailIndex + 1) &&& 127}

def addBytesRead (s : SpeedLimiter) (bytesRead : UInt64) : SpeedLimiter :=
  {s with totalBytesRead := s.totalBytesRead + bytesRead}

def onProgressUpdated (s : SpeedLimiter) (bytesRead : UInt64) (now : Timespec) :
    Option (SpeedLimiter × Option Timespec) :=
  if !s.isEnabled then some (s,none)
  else do
    let s := s.addBytesRead bytesRead
    let override ← s.isTailToBeOverride
    let s := if override then s else s.advanced
    let s ← s.setLast ⟨now,s.totalBytesRead⟩
    let last ← s.last
    some (s,s.pause last)

/-- The points from the first to the last, by the wrapped indexes. -/
def window (s : SpeedLimiter) : List ReperPoint :=
  (List.range s.queueSize.toNat).map fun i => s.slot (s.firstIndex + UInt64.ofNat i)

/-- The ring with the same cells, whose back is the tail. -/
structure Represents (s : SpeedLimiter) (ring : RingBuffer ReperPoint 128) : Prop where
  buffer : ring.buffer = s.queue
  size : ring.size = s.queueSize.toNat
  back : ring.backIndex = s.tailIndex.toNat

variable {s : SpeedLimiter} {ring : RingBuffer ReperPoint 128}

theorem Represents.slot (same : s.Represents ring) (i : UInt64) : s.slot i = ring.slot i.toNat := by
  simp only [SpeedLimiter.slot,RingBuffer.slot,same.buffer,toNat_mask]

theorem Represents.firstIndex (same : s.Represents ring) : s.firstIndex.toNat % 128 = ring.frontIndex := by
  have next := ring.back_next
  have bounded := ring.size_le
  have front := ring.front_lt
  have back := ring.back_lt
  rw [same.back,same.size] at next
  rw [same.size] at bounded
  rw [same.back] at back
  simp only [SpeedLimiter.firstIndex,UInt64.toNat_add,UInt64.toNat_sub,UInt64.reduceToNat]
  omega

theorem Represents.window (same : s.Represents ring) : s.window = ring.copyTo := by
  rw [SpeedLimiter.window,RingBuffer.copyTo,RingBuffer.copyFrom_eq,same.size]
  refine List.map_congr_left fun i member => ?_
  have few : i < s.queueSize.toNat := List.mem_range.mp member
  have bounded := ring.size_le
  rw [same.size] at bounded
  rw [same.slot]
  apply ring.slot_congr
  have first := same.firstIndex
  simp only [UInt64.toNat_add,UInt64.toNat_ofNat']
  omega

theorem Represents.last (same : s.Represents ring) : s.last = some ring.back := by
  have inside := ring.back_lt
  simp [SpeedLimiter.last,RingBuffer.back,← same.back,← same.buffer]

def tailClose (limit : Rat) (points : List ReperPoint) : Bool :=
  match points.dropLast.getLast?,points.getLast? with
  | some penult,some last => decide (secondsBetween penult.time last.time < limit)
  | _,_ => false

/-- What is kept of a list of points when the next one comes. -/
def record (limit : Rat) (points : List ReperPoint) (point : ReperPoint) : List ReperPoint :=
  if tailClose limit points then points.dropLast ++ [point] else points ++ [point]

theorem Represents.penult (same : s.Represents ring) {count : Nat} (filled : ring.size = count + 2) :
    s.penult = ring.slot (ring.frontIndex + count) := by
  have back := ring.back_mod filled
  have inside := ring.back_lt
  rw [SpeedLimiter.penult,same.slot]
  apply ring.slot_congr
  rw [same.back] at back inside
  simp only [UInt64.toNat_sub,UInt64.reduceToNat]
  omega

theorem Represents.isTailToBeOverride (same : s.Represents ring) :
    s.isTailToBeOverride = some (tailClose s.minSecondsBetweenReperPoints ring.copyTo) := by
  have several : 1 < s.queueSize ↔ 1 < ring.size := by
    rw [UInt64.lt_iff_toNat_lt,same.size]
    rfl
  unfold SpeedLimiter.isTailToBeOverride
  simp only [several]
  split
  next more =>
    obtain ⟨count,filled⟩ : ∃ count, ring.size = count + 2 := ⟨ring.size - 2,by omega⟩
    rw [same.last,same.penult filled,ring.copyTo_filled filled,tailClose,List.dropLast_concat,List.getLast?_concat,
      List.range_succ,List.map_append,List.map_singleton,List.getLast?_concat]
    rfl
  next few =>
    have short : ring.copyTo.dropLast = [] := by
      apply List.eq_nil_of_length_eq_zero
      rw [List.length_dropLast,ring.length_copyTo]
      omega
    simp [tailClose,short]

theorem Represents.setLast (same : s.Represents ring) (point : ReperPoint) :
    ∃ next, s.setLast point = some next ∧ next.Represents (ring.setBack point) ∧
      next = {s with queue := next.queue} := by
  have inside := ring.back_lt
  rw [same.back] at inside
  refine ⟨_,dif_pos inside,⟨?_,same.size,same.back⟩,rfl⟩
  simp [RingBuffer.setBack,same.buffer,same.back]

theorem Represents.advanced (same : s.Represents ring) : s.advanced.Represents ring.advance := by
  have inside := ring.back_lt
  have bounded := ring.size_le
  rw [same.back] at inside
  rw [same.size] at bounded
  refine ⟨same.buffer,?_,?_⟩
  · simp only [RingBuffer.advance,SpeedLimiter.advanced,same.size]
    have room : s.queueSize + 1 < 128 ↔ s.queueSize.toNat + 1 < 128 := by
      simp only [UInt64.lt_iff_toNat_lt,UInt64.toNat_add,UInt64.reduceToNat]
      omega
    simp only [room]
    split
    next full =>
      rw [if_neg (by omega),full]
      rfl
    next =>
      split
      next => simp only [UInt64.toNat_add,UInt64.reduceToNat]; omega
      next => simp only [UInt64.reduceToNat]; omega
  · simp only [RingBuffer.advance,SpeedLimiter.advanced,same.back,toNat_mask,UInt64.toNat_add,UInt64.reduceToNat]
    omega

theorem tailClose_concat (limit : Rat) (points : List ReperPoint) (last : ReperPoint) :
    tailClose limit (points ++ [last]) =
      points.getLast?.any fun penult => decide (secondsBetween penult.time last.time < limit) := by
  rw [tailClose,List.dropLast_concat,List.getLast?_concat]
  cases points.getLast? <;> rfl

theorem rtake_rtake {α : Type} (l : List α) (m n : Nat) : (l.rtake m).rtake n = l.rtake (min n m) := by
  simp only [List.rtake_eq_reverse_take_reverse,List.reverse_reverse,List.take_take]

theorem getLast?_rtake {α : Type} (l : List α) (n : Nat) : (l.rtake (n + 1)).getLast? = l.getLast? := by
  rcases List.eq_nil_or_concat l with rfl | ⟨front,x,rfl⟩
  · simp
  · rw [List.concat_eq_append,List.rtake_concat_succ,List.getLast?_concat,List.getLast?_concat]

/-- Of a list that is cut to its newest points, enough is left for the next one. -/
theorem record_rtake (limit : Rat) (points : List ReperPoint) (point : ReperPoint) (n : Nat) :
    (record limit (points.rtake (n + 2)) point).rtake (n + 2) = (record limit points point).rtake (n + 2) := by
  rcases List.eq_nil_or_concat points with rfl | ⟨front,last,rfl⟩
  · simp [record,tailClose]
  · have close : tailClose limit (front.rtake (n + 1) ++ [last]) = tailClose limit (front ++ [last]) := by
      rw [tailClose_concat,tailClose_concat,getLast?_rtake]
    rw [List.concat_eq_append,List.rtake_concat_succ,record,record,close]
    split
    next =>
      rw [List.dropLast_concat,List.dropLast_concat,List.rtake_concat_succ,List.rtake_concat_succ,rtake_rtake,Nat.min_self]
    next =>
      rw [List.rtake_concat_succ,List.rtake_concat_succ (front ++ [last]),List.rtake_concat_succ,
        List.rtake_concat_succ,rtake_rtake,Nat.min_eq_left (Nat.le_succ n)]

def Apart (limit : Rat) (x y : ReperPoint) : Prop := limit ≤ secondsBetween x.time y.time

theorem spaced_of_tail {limit : Rat} {points : List ReperPoint} (spaced : points.dropLast.IsChain (Apart limit))
    (far : tailClose limit points = false) : points.IsChain (Apart limit) := by
  rcases List.eq_nil_or_concat points with rfl | ⟨front,last,rfl⟩
  · exact .nil
  · rw [List.concat_eq_append,List.dropLast_concat] at spaced
    rw [List.concat_eq_append,tailClose_concat] at far
    rw [List.concat_eq_append]
    refine List.isChain_append.mpr ⟨spaced,.singleton last,?_⟩
    rintro penult before _ ⟨⟩
    rw [show front.getLast? = some penult from before] at far
    simpa [Apart] using far

theorem record_spaced {limit : Rat} {points : List ReperPoint} (spaced : points.dropLast.IsChain (Apart limit))
    (point : ReperPoint) : (record limit points point).dropLast.IsChain (Apart limit) := by
  unfold record
  split
  next => rwa [List.dropLast_concat]
  next far =>
    rw [List.dropLast_concat]
    exact spaced_of_tail spaced (Bool.eq_false_iff.mpr far)

theorem record_rising {limit : Rat} {points : List ReperPoint} {point : ReperPoint}
    (rising : (points ++ [point]).Pairwise fun x y => x.totalBytesRead ≤ y.totalBytesRead) :
    (record limit points point).Pairwise fun x y => x.totalBytesRead ≤ y.totalBytesRead := by
  unfold record
  split
  next => exact rising.sublist (points.dropLast_sublist.append_right [point])
  next => exact rising

structure Progress where
  bytesRead : UInt64
  time : Timespec

def recordAll (limit : Rat) : Nat → List ReperPoint → List Progress → List ReperPoint
  | _, points, [] => points
  | total, points, call :: calls =>
    recordAll limit (total + call.bytesRead.toNat)
      (record limit points ⟨call.time,.ofNat (total + call.bytesRead.toNat)⟩) calls

/-- The list of all points, in which the newest is replaced while it is too close to the one before. -/
def recorded (limit : Rat) (calls : List Progress) : List ReperPoint := recordAll limit 0 [] calls

def onProgressesUpdated (s : SpeedLimiter) (calls : List Progress) : Option SpeedLimiter :=
  calls.foldlM (fun s call => (s.onProgressUpdated call.bytesRead call.time).map Prod.fst) s

structure Tracks (limit : Rat) (s : SpeedLimiter) (total : Nat) (points : List ReperPoint) : Prop where
  enabled : s.isEnabled = true
  limit : s.minSecondsBetweenReperPoints = limit
  total : s.totalBytesRead = .ofNat total
  window : ∃ ring, s.Represents ring ∧ ring.copyTo = points.rtake 128

theorem copyTo_record (ring : RingBuffer ReperPoint 128) (limit : Rat) (point : ReperPoint) :
    (if tailClose limit ring.copyTo then ring.setBack point else ring.push point).copyTo =
      (record limit ring.copyTo point).rtake 128 := by
  unfold record
  split
  next close =>
    have filled : 0 < ring.size := by
      rw [Nat.pos_iff_ne_zero]
      intro empty
      have none : ring.copyTo = [] := List.length_eq_zero_iff.mp (ring.length_copyTo.trans empty)
      simp [none,tailClose] at close
    have short : (ring.copyTo.dropLast ++ [point]).length - 128 = 0 := by
      have bounded := ring.size_le
      rw [List.length_append,List.length_dropLast,ring.length_copyTo,List.length_singleton]
      omega
    rw [ring.copyTo_setBack_eq filled,List.rtake,short,List.drop_zero]
  next => exact ring.copyTo_push point

theorem onProgressUpdated_eq {bytesRead : UInt64} {now : Timespec} {close : Bool} {next : SpeedLimiter}
    {last : ReperPoint} (enabled : s.isEnabled = true)
    (found : (s.addBytesRead bytesRead).isTailToBeOverride = some close)
    (stored : (if close then s.addBytesRead bytesRead else (s.addBytesRead bytesRead).advanced).setLast
      ⟨now,s.totalBytesRead + bytesRead⟩ = some next)
    (newest : next.last = some last) : s.onProgressUpdated bytesRead now = some (next,next.pause last) := by
  have same : (if close then s.addBytesRead bytesRead else (s.addBytesRead bytesRead).advanced).totalBytesRead =
      s.totalBytesRead + bytesRead := by
    cases close <;> rfl
  rw [← same] at stored
  simp only [onProgressUpdated,enabled,Bool.not_true,Bool.false_eq_true,if_false,found,Option.bind_eq_bind,
    Option.bind_some,stored,newest]

theorem onProgressUpdated_tracks {limit : Rat} {s : SpeedLimiter} {total : Nat} {points : List ReperPoint}
    (tracks : s.Tracks limit total points) (call : Progress) :
    ∃ next pause, s.onProgressUpdated call.bytesRead call.time = some (next,pause) ∧
      next.Tracks limit (total + call.bytesRead.toNat)
        (record limit points ⟨call.time,.ofNat (total + call.bytesRead.toNat)⟩) := by
  obtain ⟨enabled,rfl,read,ring,same,window⟩ := tracks
  let grown := s.addBytesRead call.bytesRead
  have sum : grown.totalBytesRead = .ofNat (total + call.bytesRead.toNat) := by
    rw [UInt64.ofNat_add,UInt64.ofNat_toNat,← read]
    rfl
  have held : grown.Represents ring := ⟨same.buffer,same.size,same.back⟩
  let point : ReperPoint := ⟨call.time,grown.totalBytesRead⟩
  let close := tailClose s.minSecondsBetweenReperPoints ring.copyTo
  have found : grown.isTailToBeOverride = some close := held.isTailToBeOverride
  obtain ⟨next,stored,represents,rest⟩ :
      ∃ next, (if close then grown else grown.advanced).setLast point = some next ∧
        next.Represents (if close then ring.setBack point else ring.push point) ∧
        next.isEnabled = s.isEnabled ∧ next.minSecondsBetweenReperPoints = s.minSecondsBetweenReperPoints ∧
        next.totalBytesRead = grown.totalBytesRead := by
    cases close with
    | true =>
      obtain ⟨next,stored,represents,others⟩ := held.setLast point
      exact ⟨next,stored,represents,by rw [others]; rfl,by rw [others]; rfl,by rw [others]⟩
    | false =>
      obtain ⟨next,stored,represents,others⟩ := held.advanced.setLast point
      exact ⟨next,stored,represents,by rw [others]; rfl,by rw [others]; rfl,by rw [others]; rfl⟩
  refine ⟨next,_,onProgressUpdated_eq enabled found stored represents.last,rest.1.trans enabled,rest.2.1,
    rest.2.2.trans sum,_,represents,?_⟩
  rw [copyTo_record,window,record_rtake]
  simp only [point,sum]

theorem onProgressesUpdated_tracks {limit : Rat} {s : SpeedLimiter} {total : Nat} {points : List ReperPoint}
    (tracks : s.Tracks limit total points) (calls : List Progress) : ∃ final sum,
      s.onProgressesUpdated calls = some final ∧ final.Tracks limit sum (recordAll limit total points calls) := by
  induction calls generalizing s total points with
  | nil => exact ⟨s,total,rfl,tracks⟩
  | cons call calls ih =>
    obtain ⟨next,pause,moved,kept⟩ := onProgressUpdated_tracks tracks call
    obtain ⟨final,sum,ran,held⟩ := ih kept
    refine ⟨final,sum,?_,held⟩
    rw [onProgressesUpdated,List.foldlM_cons,moved]
    exact ran

theorem recordAll_spaced {limit : Rat} {total : Nat} {points : List ReperPoint}
    (spaced : points.dropLast.IsChain (Apart limit)) (calls : List Progress) :
    (recordAll limit total points calls).dropLast.IsChain (Apart limit) := by
  induction calls generalizing total points with
  | nil => exact spaced
  | cons call calls ih => exact ih (record_spaced spaced _)

theorem recordAll_rising {limit : Rat} {total : Nat} {points : List ReperPoint}
    (rising : points.Pairwise fun x y => x.totalBytesRead ≤ y.totalBytesRead)
    (below : ∀ point ∈ points, point.totalBytesRead.toNat ≤ total) (calls : List Progress)
    (fits : total + (calls.map (·.bytesRead.toNat)).sum < 18446744073709551616) :
    (recordAll limit total points calls).Pairwise fun x y => x.totalBytesRead ≤ y.totalBytesRead := by
  induction calls generalizing total points with
  | nil => exact rising
  | cons call calls ih =>
    rw [List.map_cons,List.sum_cons,← Nat.add_assoc] at fits
    have newest : (UInt64.ofNat (total + call.bytesRead.toNat)).toNat = total + call.bytesRead.toNat := by
      rw [UInt64.toNat_ofNat']
      omega
    refine ih (record_rising ?_) ?_ fits
    · refine List.pairwise_append.mpr ⟨rising,List.pairwise_singleton _ _,fun x member y new => ?_⟩
      rw [List.mem_singleton.mp new,UInt64.le_iff_toNat_le,newest]
      exact Nat.le_trans (below x member) (Nat.le_add_right total _)
    · intro point member
      have inside : point ∈ points ++ [⟨call.time,.ofNat (total + call.bytesRead.toNat)⟩] := by
        unfold record at member
        split at member
        next => exact (points.dropLast_sublist.append_right _).subset member
        next => exact member
      rcases List.mem_append.mp inside with old | new
      · exact Nat.le_trans (below point old) (Nat.le_add_right total _)
      · rw [List.mem_singleton.mp new]
        exact Nat.le_of_eq newest

theorem new_tracks {bandwidthLimitMbits : Rat} (enabled : 0 < bandwidthLimitMbits) (limit : Rat) :
    (new bandwidthLimitMbits limit).Tracks limit 0 [] := by
  let ring : RingBuffer ReperPoint 128 := {
    buffer := .replicate 128 {}
    size := 0
    frontIndex := 1
    backIndex := 0
    size_le := by decide
    front_lt := by decide
    back_lt := by decide
    back_next := rfl}
  exact ⟨decide_eq_true enabled,rfl,rfl,ring,⟨rfl,rfl,rfl⟩,rfl⟩

/-- All indexes are those of points in the queue, and from the first to the last stand the newest 128 of the points
recorded, of which only the last two may be close. -/
theorem window_newest {bandwidthLimitMbits : Rat} (enabled : 0 < bandwidthLimitMbits) (limit : Rat)
    (calls : List Progress) (fits : (calls.map (·.bytesRead.toNat)).sum < 18446744073709551616) :
    ∃ s, (new bandwidthLimitMbits limit).onProgressesUpdated calls = some s ∧ s.tailIndex.toNat < 128 ∧
      s.window = (recorded limit calls).rtake 128 ∧ s.window.dropLast.IsChain (Apart limit) ∧
      s.window.Pairwise fun x y => x.totalBytesRead ≤ y.totalBytesRead := by
  obtain ⟨s,_,ran,tracks⟩ := onProgressesUpdated_tracks (new_tracks enabled limit) calls
  obtain ⟨ring,same,contents⟩ := tracks.window
  have newest : s.window = (recorded limit calls).rtake 128 := same.window.trans contents
  have inside := ring.back_lt
  rw [same.back] at inside
  have behind : s.window <:+ recorded limit calls := newest ▸ List.drop_suffix _ _
  refine ⟨s,ran,inside,newest,?_,?_⟩
  · have spaced : (recorded limit calls).dropLast.IsChain (Apart limit) := recordAll_spaced .nil calls
    obtain ⟨front,split⟩ := behind
    by_cases empty : s.window = []
    · rw [empty]
      exact .nil
    · rw [← split,List.dropLast_append_of_ne_nil empty] at spaced
      exact spaced.right_of_append
  · exact (recordAll_rising .nil (by simp) calls (by simpa using fits)).sublist behind.sublist

/-- The third point replaces the second, which is close to the first. -/
theorem window_newest_replaced : ∃ s, (new 8 1).onProgressesUpdated [⟨10,⟨0,0⟩⟩,⟨20,⟨0,5⟩⟩,⟨30,⟨2,0⟩⟩] = some s ∧
    s.window = [⟨⟨0,0⟩,10⟩,⟨⟨2,0⟩,60⟩] := by
  obtain ⟨s,ran,_,newest,_⟩ := @window_newest 8 (by decide +kernel) 1 [⟨10,⟨0,0⟩⟩,⟨20,⟨0,5⟩⟩,⟨30,⟨2,0⟩⟩] (by decide)
  exact ⟨s,ran,newest.trans (by decide +kernel)⟩

end SpeedLimiter
end Call45Aggr
