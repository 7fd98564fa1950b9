import Call45Aggr.SpeedLimiter
import Call45Aggr.Library.Pacing
import Mathlib.Tactic.Linarith
import Mathlib.Tactic.Ring

/-! What `SpeedLimiter::on_progress_updated` holds its caller to. A call comes after the one
before has returned, and `nanosleep` lasts at least as long as it is asked to. -/
namespace Call45Aggr
open Library

def Timespec.instant (t : Timespec) : Rat := t.sec + t.nsec / 1000000000

theorem secondsBetween_eq (start finish : Timespec) :
    secondsBetween start finish = finish.instant - start.instant := by
  simp only [secondsBetween,Timespec.instant]
  push_cast
  ring

def nanosecond : Rat := 1 / 1000000000

deriving instance DecidableEq for SpeedLimiter.Progress

/-- A call of `on_progress_updated` with the time at which it returns. -/
structure Updated extends SpeedLimiter.Progress where
  back : Timespec
  deriving DecidableEq

/-- The limiter and the calls that were made of it, the newest first. -/
structure Copying where
  limiter : SpeedLimiter
  calls : List Updated := []

def totalBytes (calls : List Updated) : Nat := (calls.map (·.bytesRead.toNat)).sum

/-- Each call as the span between its two times, with all bytes up to it. -/
def spans (secondsPerByte : Rat) : List Updated → List (Span Rat)
  | [] => []
  | call :: earlier =>
    ⟨call.time.instant,call.back.instant,totalBytes (call :: earlier) * secondsPerByte⟩ ::
      spans secondsPerByte earlier

def slept (pause : Option Timespec) : Rat :=
  match pause with
  | none => 0
  | some time => time.instant

namespace SpeedLimiter

theorem requestedTime_instant (time : Rat) : time - nanosecond ≤ (requestedTime time).instant := by
  have floor := Int.lt_floor_add_one (1000000000 * (time - ⌊time⌋))
  simp only [requestedTime,Timespec.instant,nanosecond]
  linarith

theorem setLast_last {s next : SpeedLimiter} {point : ReperPoint} (set : s.setLast point = some next) :
    next.last = some point ∧ next.secondsPerByte = s.secondsPerByte ∧ next.isEnabled = s.isEnabled := by
  unfold setLast at set
  split at set
  next inside =>
    cases Option.some.inj set
    exact ⟨by simp [last,inside],rfl,rfl⟩
  next => contradiction

theorem onProgressUpdated_cases {s next : SpeedLimiter} {bytesRead : UInt64} {now : Timespec}
    {pause : Option Timespec} (enabled : s.isEnabled = true)
    (moved : s.onProgressUpdated bytesRead now = some (next,pause)) :
    pause = next.pause ⟨now,s.totalBytesRead + bytesRead⟩ ∧ next.secondsPerByte = s.secondsPerByte ∧
      next.isEnabled = true := by
  simp only [onProgressUpdated,enabled,Bool.not_true,Bool.false_eq_true,if_false] at moved
  obtain ⟨override,_,moved⟩ := Option.bind_eq_some_iff.mp moved
  obtain ⟨limiter,set,moved⟩ := Option.bind_eq_some_iff.mp moved
  obtain ⟨last,found,moved⟩ := Option.bind_eq_some_iff.mp moved
  cases Option.some.inj moved
  obtain ⟨newest,same⟩ := setLast_last set
  cases Option.some.inj (newest.symm.trans found)
  cases override with
  | true => exact ⟨rfl,same.1,same.2.trans enabled⟩
  | false => exact ⟨rfl,same.1,same.2.trans enabled⟩

theorem window_head {s : SpeedLimiter} (filled : s.queueSize ≠ 0) : s.window.head? = some s.first := by
  have size : s.queueSize.toNat ≠ 0 := fun none => filled (UInt64.toNat_inj.mp none)
  obtain ⟨count,same⟩ := Nat.exists_eq_succ_of_ne_zero size
  rw [window,same,List.range_succ_eq_map,List.map_cons,List.head?_cons]
  simp [first]

@[simp] theorem length_window (s : SpeedLimiter) : s.window.length = s.queueSize.toNat := by
  simp [window]

end SpeedLimiter

namespace Copying

def start (bandwidthLimitMbits minSecondsBetweenReperPoints : Rat) : Copying where
  limiter := .new bandwidthLimitMbits minSecondsBetweenReperPoints

def step (s : Copying) (call : Updated) : Option Copying :=
  match s.limiter.onProgressUpdated call.bytesRead call.time with
  | none => none
  | some (limiter,pause) =>
    if (∀ last ∈ s.calls.head?, last.back.instant ≤ call.time.instant) ∧
        call.time.instant + slept pause ≤ call.back.instant then
      some {limiter,calls := call :: s.calls}
    else none

/-- A point of the limiter is that of a call. -/
def Recorded (secondsPerByte : Rat) (calls : List Updated) (point : ReperPoint) : Prop :=
  point.totalBytesRead.toNat ≤ totalBytes calls ∧
  ∃ span ∈ spans secondsPerByte calls,
    span.start = point.time.instant ∧ span.work = point.totalBytesRead.toNat * secondsPerByte

/-- The bytes since the oldest point of the window took their time. -/
def WindowKept (s : Copying) : Prop :=
  ∀ last ∈ s.calls.head?, ∀ point ∈ s.limiter.window.head?,
    (totalBytes s.calls - point.totalBytesRead.toNat : Rat) * s.limiter.secondsPerByte ≤
      last.back.instant - point.time.instant + nanosecond

structure Kept (limit secondsPerByte : Rat) (s : Copying) : Prop where
  same : s.limiter.secondsPerByte = secondsPerByte
  tracks : ∃ points, s.limiter.Tracks limit (totalBytes s.calls) points ∧
    (points = [] → s.calls = []) ∧ ∀ point ∈ points, Recorded secondsPerByte s.calls point
  paced : s.calls = [] ∨ Paced nanosecond (spans secondsPerByte s.calls)
  window : s.WindowKept

/-- The newest point stands behind older ones, unless it is the first. -/
theorem record_shape (limit : Rat) (points : List ReperPoint) (point : ReperPoint) :
    ∃ front, SpeedLimiter.record limit points point = front ++ [point] ∧ front ⊆ points ∧
      (front = [] → points = []) := by
  unfold SpeedLimiter.record
  split
  next close =>
    refine ⟨points.dropLast,rfl,List.dropLast_subset points,fun none => ?_⟩
    rw [SpeedLimiter.tailClose,none] at close
    contradiction
  next => exact ⟨points,rfl,List.Subset.refl points,id⟩

theorem Recorded.cons {secondsPerByte : Rat} {calls : List Updated} {point : ReperPoint}
    (recorded : Recorded secondsPerByte calls point) (call : Updated) :
    Recorded secondsPerByte (call :: calls) point := by
  obtain ⟨below,span,member,same⟩ := recorded
  refine ⟨?_,span,List.mem_cons_of_mem _ member,same⟩
  simp only [totalBytes,List.map_cons,List.sum_cons] at below ⊢
  omega

/-- What the pause of one call makes of the oldest point. -/
theorem pause_keeps {limiter : SpeedLimiter} {time back : Timespec} {first : ReperPoint} {total : Nat}
    (fits : total < 18446744073709551616) (below : first.totalBytesRead.toNat ≤ total)
    (oldest : limiter.queueSize ≤ 1 → first = ⟨time,.ofNat total⟩)
    (front : ¬limiter.queueSize ≤ 1 → limiter.first = first)
    (waited : time.instant + slept (limiter.pause ⟨time,.ofNat total⟩) ≤ back.instant) :
    (total - first.totalBytesRead.toNat : Rat) * limiter.secondsPerByte ≤
      back.instant - first.time.instant + nanosecond := by
  have whole : (UInt64.ofNat total).toNat = total := by
    rw [UInt64.toNat_ofNat']
    omega
  have slack : 0 ≤ nanosecond := by decide +kernel
  have remaining : limiter.remainingTime first ⟨time,.ofNat total⟩ =
      (total - first.totalBytesRead.toNat : Rat) * limiter.secondsPerByte -
        (time.instant - first.time.instant) := by
    have bytes : (UInt64.ofNat total - first.totalBytesRead).toNat = total - first.totalBytesRead.toNat := by
      rw [UInt64.toNat_sub_of_le]
      · rw [whole]
      · rw [UInt64.le_iff_toNat_le,whole]
        exact below
    rw [SpeedLimiter.remainingTime,secondsBetween_eq,bytes,Nat.cast_sub below]
  unfold SpeedLimiter.pause at waited
  split at waited
  next few =>
    rw [oldest few,whole]
    simp only [slept,add_zero] at waited
    linarith
  next several =>
    rw [front several,remaining] at waited
    split at waited
    next passed =>
      simp only [slept,add_zero] at waited
      linarith
    next =>
      have asked := SpeedLimiter.requestedTime_instant
        ((total - first.totalBytesRead.toNat : Rat) * limiter.secondsPerByte - (time.instant - first.time.instant))
      simp only [slept] at waited
      linarith

theorem step_cases {s next : Copying} {call : Updated} (enabled : s.limiter.isEnabled = true)
    (stepped : s.step call = some next) : next.calls = call :: s.calls ∧ next.limiter.isEnabled = true ∧
      (∀ last ∈ s.calls.head?, last.back.instant ≤ call.time.instant) ∧
      s.limiter.onProgressUpdated call.bytesRead call.time = some (next.limiter,
        next.limiter.pause ⟨call.time,s.limiter.totalBytesRead + call.bytesRead⟩) ∧
      next.limiter.secondsPerByte = s.limiter.secondsPerByte ∧
      call.time.instant + slept (next.limiter.pause
        ⟨call.time,s.limiter.totalBytesRead + call.bytesRead⟩) ≤ call.back.instant := by
  unfold step at stepped
  split at stepped
  next => contradiction
  next limiter pause moved =>
    split at stepped
    next allowed =>
      cases Option.some.inj stepped
      obtain ⟨rfl,same,still⟩ := SpeedLimiter.onProgressUpdated_cases enabled moved
      exact ⟨rfl,still,allowed.1,moved,same,allowed.2⟩
    next => contradiction

theorem slept_nonneg (s : SpeedLimiter) (last : ReperPoint) : 0 ≤ slept (s.pause last) := by
  unfold SpeedLimiter.pause
  split
  next => exact le_rfl
  next =>
    split
    next => exact le_rfl
    next more =>
      have whole : (0 : Rat) ≤ ⌊s.remainingTime s.first last⌋ := by
        exact_mod_cast Int.floor_nonneg.mpr (le_of_not_ge more)
      have part : (0 : Rat) ≤ ⌊1000000000 * (s.remainingTime s.first last - ⌊s.remainingTime s.first last⌋)⌋ := by
        have below := Int.floor_le (s.remainingTime s.first last)
        exact_mod_cast Int.floor_nonneg.mpr (by linarith)
      simp only [slept,SpeedLimiter.requestedTime,Timespec.instant]
      positivity

/-- The oldest point of the window is an older one where there is one. -/
theorem window_oldest {limiter : SpeedLimiter} {limit : Rat} {total : Nat} {points : List ReperPoint}
    {point : ReperPoint} (tracked : limiter.Tracks limit total (SpeedLimiter.record limit points point)) :
    ∃ first, limiter.window.head? = some first ∧
      (limiter.queueSize ≤ 1 → first = point) ∧ (¬limiter.queueSize ≤ 1 → limiter.first = first) ∧
      (points = [] ∧ first = point ∨ first ∈ points) := by
  obtain ⟨ring,represents,contents⟩ := tracked.window
  obtain ⟨front,shape,older,none⟩ := record_shape limit points point
  have window : limiter.window = front.rtake 127 ++ [point] := by
    rw [represents.window,contents,shape,List.rtake_concat_succ]
  have size : limiter.queueSize.toNat = (front.rtake 127).length + 1 := by
    rw [← limiter.length_window,window,List.length_append,List.length_singleton]
  have filled : limiter.queueSize ≠ 0 := by
    intro empty
    rw [empty] at size
    exact absurd size (by simp)
  have head := limiter.window_head filled
  refine ⟨limiter.first,head,?_,fun _ => rfl,?_⟩
  · intro few
    have alone : front.rtake 127 = [] := by
      apply List.eq_nil_of_length_eq_zero
      have one := UInt64.le_iff_toNat_le.mp few
      simp only [UInt64.reduceToNat] at one
      omega
    rw [window,alone] at head
    exact (Option.some.inj head).symm
  · rw [window] at head
    cases kept : front.rtake 127 with
    | nil =>
      rw [kept] at head
      have empty : front = [] := by
        have short : (front.rtake 127).length = 0 := by rw [kept]; rfl
        simp only [List.rtake,List.length_drop] at short
        apply List.eq_nil_of_length_eq_zero
        omega
      exact .inl ⟨none empty,(Option.some.inj head).symm⟩
    | cons first rest =>
      rw [kept] at head
      cases Option.some.inj head
      refine .inr (older (List.mem_of_mem_drop (i := front.length - 127) ?_))
      rw [← List.rtake,kept]
      exact List.mem_cons_self

theorem step_kept {limit secondsPerByte : Rat} {s next : Copying} {call : Updated}
    (kept : s.Kept limit secondsPerByte) (stepped : s.step call = some next)
    (fits : totalBytes next.calls < 18446744073709551616) : next.Kept limit secondsPerByte := by
  obtain ⟨same,⟨points,tracks,started,recorded⟩,paced,_⟩ := kept
  obtain ⟨calls,_,later,moved,unchanged,waited⟩ := step_cases tracks.enabled stepped
  obtain ⟨limiter,pause,again,tracked⟩ := SpeedLimiter.onProgressUpdated_tracks tracks call.toProgress
  obtain ⟨rfl,_⟩ := Prod.mk.inj (Option.some.inj (moved.symm.trans again))
  have sum : totalBytes s.calls + call.bytesRead.toNat = totalBytes (call :: s.calls) := by
    simp [totalBytes,Nat.add_comm]
  have total : s.limiter.totalBytesRead + call.bytesRead = .ofNat (totalBytes (call :: s.calls)) := by
    rw [tracks.total,← sum,UInt64.ofNat_add,UInt64.ofNat_toNat]
  rw [calls] at fits
  rw [total] at waited
  rw [sum] at tracked
  have whole : (UInt64.ofNat (totalBytes (call :: s.calls))).toNat = totalBytes (call :: s.calls) := by
    rw [UInt64.toNat_ofNat']
    omega
  have forward : call.time.instant ≤ call.back.instant := by
    have slept := slept_nonneg next.limiter ⟨call.time,.ofNat (totalBytes (call :: s.calls))⟩
    linarith
  have own : Recorded secondsPerByte (call :: s.calls) ⟨call.time,.ofNat (totalBytes (call :: s.calls))⟩ :=
    ⟨Nat.le_of_eq whole,_,List.mem_cons_self,rfl,by rw [whole]⟩
  obtain ⟨front,shape,older,_⟩ := record_shape limit points ⟨call.time,.ofNat (totalBytes (call :: s.calls))⟩
  obtain ⟨first,head,few,several,behind⟩ := window_oldest tracked
  have oldest : Recorded secondsPerByte (call :: s.calls) first := by
    rcases behind with ⟨_,rfl⟩ | inside
    · exact own
    · exact (recorded first inside).cons call
  have pace := pause_keeps fits oldest.1 few several waited
  refine ⟨unchanged.trans same,⟨_,by rw [calls]; exact tracked,?_,?_⟩,.inr ?_,?_⟩
  · intro none
    simp [shape] at none
  · intro old member
    rw [shape] at member
    rw [calls]
    rcases List.mem_append.mp member with inside | new
    · exact (recorded old (older inside)).cons call
    · cases List.mem_singleton.mp new
      exact own
  · rw [calls]
    cases past : s.calls with
    | nil => exact .first _ forward
    | cons last earlier =>
      rw [past] at later paced recorded pace started
      have inside : first ∈ points := behind.resolve_left fun fresh => by simpa using started fresh.1
      obtain ⟨_,span,member,starts,work⟩ := recorded first inside
      refine .next _ _ _ (paced.resolve_left (by simp)) (later last rfl) forward span member ?_
      rw [starts,work,← sub_mul,← same,← unchanged]
      exact pace
  · intro last newest point front
    rw [calls] at newest ⊢
    cases Option.some.inj newest
    cases Option.some.inj (head.symm.trans front)
    exact pace

theorem run_enabled {bandwidth limit : Rat} (enabled : 0 < bandwidth) {s : Copying}
    (run : Run step Always (start bandwidth limit) s) : s.limiter.isEnabled = true :=
  run.invariant (decide_eq_true enabled) fun _ _ _ _ still _ stepped => (step_cases still stepped).2.1

theorem run_kept {bandwidth limit : Rat} (enabled : 0 < bandwidth) {s : Copying}
    (run : Run step Always (start bandwidth limit) s) (fits : totalBytes s.calls < 18446744073709551616) :
    s.Kept limit (SpeedLimiter.new bandwidth limit).secondsPerByte := by
  induction run with
  | start =>
    exact ⟨rfl,⟨[],SpeedLimiter.new_tracks enabled limit,fun _ => rfl,by simp⟩,.inl rfl,by simp [WindowKept,start]⟩
  | step state next call before _ stepped ih =>
    refine step_kept (ih ?_) stepped fits
    rw [(step_cases (run_enabled enabled before) stepped).1,totalBytes,List.map_cons,List.sum_cons] at fits
    simp only [totalBytes]
    omega

theorem spans_last (secondsPerByte : Rat) {calls : List Updated} {first : Updated}
    (begins : calls.getLast? = some first) : (spans secondsPerByte calls).getLast? =
      some ⟨first.time.instant,first.back.instant,first.bytesRead.toNat * secondsPerByte⟩ := by
  induction calls with
  | nil => contradiction
  | cons call earlier ih =>
    cases earlier with
    | nil =>
      cases begins
      simp [spans,totalBytes]
    | cons last earlier =>
      have before := ih (by simpa using begins)
      simpa [spans] using before

def Updated.lasted (call : Updated) : Rat := call.back.instant - call.time.instant

theorem spans_lengths (secondsPerByte : Rat) (calls : List Updated) :
    (spans secondsPerByte calls).map Span.length = calls.map Updated.lasted := by
  induction calls with
  | nil => rfl
  | cons call earlier ih =>
    rw [spans,List.map_cons,ih]
    rfl

end Copying
end Call45Aggr
