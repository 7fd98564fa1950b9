import Mathlib.Data.List.Basic
import Mathlib.Algebra.Order.Ring.Nat

/-! `Allocator`: aligned blocks out of extents, on a heap that never runs out. -/
namespace Call45Aggr

namespace Allocator

def extentSize : Nat := 0x10000

/-- Where `new` puts the extents, one after the other. -/
structure Heap where
  alignment : Nat
  power : ∃ k, alignment = 2^k
  base : Nat → Nat
  aligned : ∀ n, alignment ∣ base n
  apart : ∀ m n, m ≠ n → base m + extentSize ≤ base n ∨ base n + extentSize ≤ base m

/-- The extents without gaps. -/
def Heap.contiguous : Heap where
  alignment := extentSize
  power := ⟨16,rfl⟩
  base n := n * extentSize
  aligned := Nat.dvd_mul_left extentSize
  apart m n different := by
    rw [← Nat.succ_mul,← Nat.succ_mul]
    rcases Nat.lt_or_gt_of_ne different with before | behind
    · exact .inl (Nat.mul_le_mul_right extentSize before)
    · exact .inr (Nat.mul_le_mul_right extentSize behind)

structure Request (heap : Heap) where
  size : Nat
  alignment : Nat
  filled : 1 ≤ size
  sizeT : size < 2^64
  power : ∃ k < 64, alignment = 2^k
  within : alignment ≤ heap.alignment

end Allocator

/-- `storage_` holds the first extents of the heap. -/
structure Allocator where
  position : Nat := Allocator.extentSize
  extents : Nat := 0

namespace Allocator

def allocateExtent (a : Allocator) : Allocator := ⟨0,a.extents + 1⟩

def make : Allocator := ({} : Allocator).allocateExtent

def bytesForAlignment (currentPosition alignment : Nat) : Nat :=
  let remainder := currentPosition % alignment
  if remainder ≠ 0 then alignment - remainder else remainder

section
variable (heap : Heap)

/-- The start of the last extent. -/
def back (a : Allocator) : Nat := heap.base (a.extents - 1)

/-- The fuel is the depth of the recursion. Sums are of `size_t`. -/
def allocateAligned (size alignment : Nat) : Nat → Allocator → Option (Nat × Allocator)
  | 0, _ => none
  | fuel + 1, a =>
    let currentPosition := a.back heap + a.position
    let bytes := bytesForAlignment currentPosition alignment
    if extentSize < (a.position + bytes + size) % 2^64 then allocateAligned size alignment fuel a.allocateExtent
    else some (currentPosition + bytes,{a with position := (a.position + bytes + size) % 2^64})

/-- What a request gets. -/
structure Block where
  request : Request heap
  ptr : Nat

def serve (fuel : Nat) : List (Request heap) → Allocator → Option (List (Block heap) × Allocator)
  | [], a => some ([],a)
  | request :: requests, a => do
    let (ptr,a) ← allocateAligned heap request.size request.alignment fuel a
    let (blocks,a) ← serve fuel requests a
    return (⟨request,ptr⟩ :: blocks,a)

end

namespace Block
variable {heap : Heap}

def Inside (block : Block heap) (n : Nat) : Prop :=
  heap.base n ≤ block.ptr ∧ block.ptr + block.request.size ≤ heap.base n + extentSize

def Apart (block other : Block heap) : Prop :=
  block.ptr + block.request.size ≤ other.ptr ∨ other.ptr + other.request.size ≤ block.ptr

end Block

/-- All requests return, each with an aligned block inside one extent, and the blocks are disjoint. -/
def Served (heap : Heap) (requests : List (Request heap)) : Prop :=
  ∃ fuel blocks a, serve heap fuel requests make = some (blocks,a) ∧
    (∀ block ∈ blocks, block.request.alignment ∣ block.ptr ∧ ∃ n < a.extents, block.Inside n) ∧
    blocks.Pairwise Block.Apart

section
variable {heap : Heap}

theorem serve_cons {fuel : Nat} {request : Request heap} {requests : List (Request heap)} {a last : Allocator}
    {blocks : List (Block heap)} : serve heap fuel (request :: requests) a = some (blocks,last) ↔
      ∃ ptr next rest, allocateAligned heap request.size request.alignment fuel a = some (ptr,next) ∧
        serve heap fuel requests next = some (rest,last) ∧ blocks = ⟨request,ptr⟩ :: rest := by
  simp only [serve,bind,Option.bind_eq_some_iff,pure,Option.some.injEq,Prod.mk.injEq,Prod.exists]
  constructor
  · rintro ⟨ptr,next,allocated,rest,last,later,rfl,rfl⟩
    exact ⟨ptr,next,rest,allocated,later,rfl⟩
  · rintro ⟨ptr,next,rest,allocated,later,rfl⟩
    exact ⟨ptr,next,allocated,rest,last,later,rfl,rfl⟩

/-- Each request gets its block. -/
theorem serve_requests {fuel : Nat} {requests : List (Request heap)} {a last : Allocator} {blocks : List (Block heap)}
    (served : serve heap fuel requests a = some (blocks,last)) : blocks.map Block.request = requests := by
  induction requests generalizing a blocks with
  | nil =>
    cases served
    rfl
  | cons request requests ih =>
    obtain ⟨ptr,next,rest,-,later,rfl⟩ := serve_cons.mp served
    rw [List.map_cons,ih later]

theorem small_of_served {requests : List (Request heap)} (served : Served heap requests) :
    ∀ request ∈ requests, request.size ≤ extentSize := by
  obtain ⟨fuel,blocks,a,ran,placed,-⟩ := served
  intro request member
  rw [← serve_requests ran] at member
  obtain ⟨block,present,rfl⟩ := List.mem_map.mp member
  obtain ⟨-,n,-,lower,upper⟩ := placed block present
  omega

theorem bytesForAlignment_lt (currentPosition : Nat) {alignment : Nat} (positive : 0 < alignment) :
    bytesForAlignment currentPosition alignment < alignment := by
  rw [bytesForAlignment]
  split
  · omega
  · exact Nat.mod_lt currentPosition positive

theorem bytesForAlignment_of_dvd {currentPosition alignment : Nat} (aligned : alignment ∣ currentPosition) :
    bytesForAlignment currentPosition alignment = 0 := by
  have exact' := Nat.mod_eq_zero_of_dvd aligned
  rw [bytesForAlignment,if_neg (not_not_intro exact'),exact']

theorem aligned_bytes (currentPosition : Nat) {alignment : Nat} (positive : 0 < alignment) :
    alignment ∣ currentPosition + bytesForAlignment currentPosition alignment := by
  by_cases aligned : alignment ∣ currentPosition
  · rw [bytesForAlignment_of_dvd aligned]
    exact aligned
  · have rest : currentPosition % alignment ≠ 0 := fun none => aligned (Nat.dvd_of_mod_eq_zero none)
    have bound := Nat.mod_lt currentPosition positive
    have split := Nat.div_add_mod currentPosition alignment
    refine ⟨currentPosition / alignment + 1,?_⟩
    rw [bytesForAlignment,if_pos rest,Nat.mul_add,Nat.mul_one]
    omega

/-- A request for more than an extent restarts in one fresh extent after the other, unless the sum wraps. -/
theorem never_returns {size alignment : Nat} (large : extentSize < size) (positive : 0 < alignment)
    (fits : extentSize + alignment + size < 2^64) (fuel : Nat) {a : Allocator} (position : a.position ≤ extentSize) :
    allocateAligned heap size alignment fuel a = none := by
  induction fuel generalizing a with
  | zero => rfl
  | succ fuel ih =>
    have bytes := bytesForAlignment_lt (a.back heap + a.position) positive
    rw [allocateAligned,if_pos]
    · exact ih (Nat.zero_le _)
    · rw [Nat.mod_eq_of_lt (by omega)]
      omega

/-- The block ends at the position in the last extent. -/
structure Placed (heap : Heap) (next : Allocator) (ptr size : Nat) : Prop where
  start : next.back heap ≤ ptr
  stop : ptr + size = next.back heap + next.position
  position : next.position ≤ extentSize

namespace Request

theorem alignment_pos (request : Request heap) : 0 < request.alignment := by
  obtain ⟨k,-,power⟩ := request.power
  rw [power]
  exact Nat.two_pow_pos k

theorem alignment_le (request : Request heap) : request.alignment ≤ 2^63 := by
  obtain ⟨k,bound,power⟩ := request.power
  rw [power]
  exact Nat.pow_le_pow_right (by decide) (by omega)

/-- Each extent is aligned for each request. -/
theorem alignment_dvd (request : Request heap) (n : Nat) : request.alignment ∣ heap.base n := by
  obtain ⟨k,-,power⟩ := request.power
  obtain ⟨j,whole⟩ := heap.power
  have within := request.within
  rw [power,whole] at within
  have exponent : k ≤ j := (Nat.pow_le_pow_iff_right (by decide)).mp within
  refine Nat.dvd_trans ?_ (heap.aligned n)
  rw [power,whole]
  exact Nat.pow_dvd_pow 2 exponent

theorem allocate_here (request : Request heap) (fuel : Nat) {a : Allocator}
    (fits : a.position + bytesForAlignment (a.back heap + a.position) request.alignment + request.size ≤ extentSize) :
    ∃ ptr next, allocateAligned heap request.size request.alignment (fuel + 1) a = some (ptr,next) ∧
      request.alignment ∣ ptr ∧ Placed heap next ptr request.size ∧
        next.extents = a.extents ∧ a.back heap + a.position ≤ ptr := by
  have small : extentSize < 2^64 := by decide
  refine ⟨_,{a with position := a.position + bytesForAlignment (a.back heap + a.position) request.alignment + request.size},
    ?_,aligned_bytes (a.back heap + a.position) request.alignment_pos,⟨?_,?_,fits⟩,rfl,Nat.le_add_right _ _⟩
  · rw [allocateAligned,Nat.mod_eq_of_lt (by omega),if_neg (Nat.not_lt.mpr fits)]
  · exact Nat.le_trans (Nat.le_add_right _ _) (Nat.le_add_right _ _)
  · simp only [back]
    omega

/-- One restart is enough where the request is not larger than an extent. -/
theorem allocate_small (request : Request heap) (small : request.size ≤ extentSize) {a : Allocator}
    (position : a.position ≤ extentSize) :
    ∃ ptr next, allocateAligned heap request.size request.alignment 2 a = some (ptr,next) ∧
      request.alignment ∣ ptr ∧ Placed heap next ptr request.size ∧
        (next.extents = a.extents ∧ a.back heap + a.position ≤ ptr ∨ next.extents = a.extents + 1) := by
  by_cases fits : a.position + bytesForAlignment (a.back heap + a.position) request.alignment + request.size ≤ extentSize
  · obtain ⟨ptr,next,allocated,aligned,placed,same⟩ := request.allocate_here 1 fits
    exact ⟨ptr,next,allocated,aligned,placed,.inl same⟩
  have bytes := bytesForAlignment_lt (a.back heap + a.position) request.alignment_pos
  have alignment := request.alignment_le
  have extent : extentSize = 65536 := rfl
  have restarted : allocateAligned heap request.size request.alignment 2 a =
      allocateAligned heap request.size request.alignment 1 a.allocateExtent := by
    rw [allocateAligned,if_pos]
    rw [Nat.mod_eq_of_lt (by omega)]
    omega
  have fresh : bytesForAlignment (a.allocateExtent.back heap + a.allocateExtent.position) request.alignment = 0 :=
    bytesForAlignment_of_dvd (request.alignment_dvd a.extents)
  have room : a.allocateExtent.position + bytesForAlignment (a.allocateExtent.back heap + a.allocateExtent.position)
      request.alignment + request.size ≤ extentSize := by
    rw [fresh,Nat.add_zero,allocateExtent,Nat.zero_add]
    exact small
  obtain ⟨ptr,next,allocated,aligned,placed,extents,-⟩ := request.allocate_here 0 room
  exact ⟨ptr,next,restarted.trans allocated,aligned,placed,.inr extents⟩

end Request

/-- The block lies in an extent, and if it is the last one then before the position. -/
def Used (a : Allocator) (block : Block heap) : Prop :=
  ∃ n < a.extents, block.Inside n ∧ (n + 1 = a.extents → block.ptr + block.request.size ≤ heap.base n + a.position)

theorem inside_of_placed {request : Request heap} {next : Allocator} {ptr : Nat}
    (placed : Placed heap next ptr request.size) : (⟨request,ptr⟩ : Block heap).Inside (next.extents - 1) := by
  obtain ⟨start,stop,position⟩ := placed
  refine ⟨start,?_⟩
  rw [back] at stop
  dsimp only
  omega

theorem apart_of_inside {block other : Block heap} {m n : Nat} (different : m ≠ n) (first : block.Inside m)
    (second : other.Inside n) : block.Apart other := by
  obtain ⟨lower,upper⟩ := first
  obtain ⟨lower',upper'⟩ := second
  rcases heap.apart m n different with before | behind
  · exact .inl (by omega)
  · exact .inr (by omega)

/-- A new block is apart from those in use, and they stay in use. -/
theorem used_kept {request : Request heap} {a next : Allocator} {ptr : Nat} (placed : Placed heap next ptr request.size)
    (moved : next.extents = a.extents ∧ a.back heap + a.position ≤ ptr ∨ next.extents = a.extents + 1)
    {block : Block heap} (used : a.Used block) : block.Apart ⟨request,ptr⟩ ∧ next.Used block := by
  obtain ⟨n,below,inside,last⟩ := used
  have fresh := inside_of_placed placed
  rcases moved with ⟨same,behind⟩ | more
  · by_cases here : n + 1 = a.extents
    · have before := last here
      have number : a.extents - 1 = n := by omega
      have stop := placed.stop
      rw [back,same,number] at stop
      rw [back,number] at behind
      exact ⟨.inl (Nat.le_trans before behind),n,by omega,inside,fun _ => by omega⟩
    · exact ⟨apart_of_inside (by omega) inside fresh,n,by omega,inside,fun other => absurd (other.trans same) here⟩
  · exact ⟨apart_of_inside (by omega) inside fresh,n,by omega,inside,fun other => by omega⟩

theorem used_of_placed {request : Request heap} {next : Allocator} {ptr : Nat} (placed : Placed heap next ptr request.size)
    (some' : 0 < next.extents) : next.Used ⟨request,ptr⟩ := by
  refine ⟨next.extents - 1,by omega,inside_of_placed placed,fun _ => ?_⟩
  exact Nat.le_of_eq placed.stop

/-- The blocks of small requests are apart from those in use before and from each other. -/
theorem serve_small {requests : List (Request heap)} (small : ∀ request ∈ requests, request.size ≤ extentSize) {a : Allocator}
    (some' : 0 < a.extents) (position : a.position ≤ extentSize) :
    ∃ blocks last, serve heap 2 requests a = some (blocks,last) ∧ (∀ block : Block heap, a.Used block → last.Used block) ∧
      (∀ block ∈ blocks, block.request.alignment ∣ block.ptr ∧ last.Used block ∧ ∀ old, a.Used old → old.Apart block) ∧
      blocks.Pairwise Block.Apart := by
  induction requests generalizing a with
  | nil => exact ⟨[],a,rfl,fun _ used => used,by simp,.nil⟩
  | cons request requests ih =>
    obtain ⟨first,small⟩ := List.forall_mem_cons.mp small
    obtain ⟨ptr,next,allocated,aligned,placed,moved⟩ := request.allocate_small first position
    have filled : 0 < next.extents := by omega
    obtain ⟨blocks,last,served,stays,good,apart⟩ := ih small filled placed.position
    have own : next.Used ⟨request,ptr⟩ := used_of_placed placed filled
    refine ⟨⟨request,ptr⟩ :: blocks,last,serve_cons.mpr ⟨ptr,next,blocks,allocated,served,rfl⟩,?_,?_,?_⟩
    · exact fun block used => stays block (used_kept placed moved used).2
    · refine List.forall_mem_cons.mpr ⟨⟨aligned,stays _ own,fun old used => (used_kept placed moved used).1⟩,?_⟩
      intro block member
      obtain ⟨aligned,used,before⟩ := good block member
      exact ⟨aligned,used,fun old used => before old (used_kept placed moved used).2⟩
    · exact List.pairwise_cons.mpr ⟨fun block member => (good block member).2.2 _ own,apart⟩

/-- The requests of a sequence are served exactly if none is for more than an extent. -/
theorem served_iff (heap : Heap) (requests : List (Request heap)) :
    Served heap requests ↔ ∀ request ∈ requests, request.size ≤ extentSize := by
  refine ⟨small_of_served,fun small => ?_⟩
  obtain ⟨blocks,last,served,-,good,apart⟩ := @serve_small heap requests small make Nat.one_pos (Nat.zero_le _)
  refine ⟨2,blocks,last,served,fun block member => ?_,apart⟩
  obtain ⟨aligned,⟨n,below,inside,-⟩,-⟩ := good block member
  exact ⟨aligned,n,below,inside⟩

/-- A request for one byte more than an extent never returns. -/
theorem endless : ¬∀ (heap : Heap) (requests : List (Request heap)), Served heap requests := by
  intro served
  obtain ⟨fuel,blocks,a,ran,-⟩ := served .contiguous [⟨65537,1,by decide,by decide,⟨0,by decide,rfl⟩,by decide⟩]
  obtain ⟨ptr,next,rest,allocated,-⟩ := serve_cons.mp ran
  rw [never_returns (by decide) (by decide) (by decide) fuel (Nat.zero_le _)] at allocated
  cases allocated

end

end Allocator
end Call45Aggr
