import Mathlib.Data.List.Perm.Basic

/-! Queues. One between one producer and one consumer is first-in first-out, and is kept with
the items that already left it, so that its whole traffic can be spoken about. One of several
producers keeps the order of each of them and no other: what leaves it next is the oldest
item of any one of them. -/
namespace Call45Aggr.Library

structure Fifo (α : Type) where
  received : List α := []
  pending : List α := []

namespace Fifo
variable {α : Type}

def log (queue : Fifo α) : List α := queue.received ++ queue.pending

def enqueue (queue : Fifo α) (item : α) : Fifo α :=
  {queue with pending := queue.pending ++ [item]}

def batch (queue : Fifo α) (count : Nat) : List α := queue.pending.take count

def dequeueBulk (queue : Fifo α) (count : Nat) : Fifo α where
  received := queue.received ++ queue.batch count
  pending := queue.pending.drop count

@[simp] theorem log_enqueue (queue : Fifo α) (item : α) :
    (queue.enqueue item).log = queue.log ++ [item] := by
  simp [log,enqueue]

@[simp] theorem log_dequeueBulk (queue : Fifo α) (count : Nat) :
    (queue.dequeueBulk count).log = queue.log := by
  simp [log,dequeueBulk,batch]

theorem dequeueBulk_all (queue : Fifo α) (count : Nat) (all : queue.pending.length ≤ count) :
    (queue.dequeueBulk count).pending = [] :=
  List.drop_of_length_le all

end Fifo

/-- What one producer put into a list, in order. -/
def lane {κ α : Type} [DecidableEq κ] (producer : κ) (entries : List (κ × α)) : List α :=
  (entries.filter fun entry => entry.1 = producer).map (·.2)

structure Channel (κ α : Type) where
  pending : List (κ × α) := []
  deriving DecidableEq

namespace Channel
variable {κ α : Type} [DecidableEq κ]

def enqueue (channel : Channel κ α) (producer : κ) (item : α) : Channel κ α :=
  ⟨channel.pending ++ [(producer,item)]⟩

/-- Takes the item at `place`, unless an earlier one is of the same producer. -/
def dequeue (channel : Channel κ α) (place : Nat) : Option ((κ × α) × Channel κ α) :=
  (channel.pending[place]?).bind fun entry =>
    if (channel.pending.take place).any fun earlier => earlier.1 = entry.1 then none
    else some (entry,⟨channel.pending.eraseIdx place⟩)

end Channel

variable {κ α : Type} [DecidableEq κ]

@[simp] theorem lane_nil (producer : κ) : lane producer ([] : List (κ × α)) = [] := rfl

@[simp] theorem lane_append (producer : κ) (entries others : List (κ × α)) :
    lane producer (entries ++ others) = lane producer entries ++ lane producer others := by
  simp [lane]

theorem mem_lane {producer : κ} {entries : List (κ × α)} {item : α} :
    item ∈ lane producer entries ↔ (producer,item) ∈ entries := by
  simp [lane]

theorem lane_singleton (producer owner : κ) (item : α) :
    lane producer [(owner,item)] = if owner = producer then [item] else [] := by
  by_cases same : owner = producer <;> simp [lane,same]

theorem lane_eq_nil {producer : κ} {entries : List (κ × α)} (none : ∀ entry ∈ entries, entry.1 ≠ producer) :
    lane producer entries = [] := by
  simpa [lane] using none

theorem Channel.lane_dequeue {channel rest : Channel κ α} {place : Nat} {entry : κ × α}
    (dequeued : channel.dequeue place = some (entry,rest)) (producer : κ) :
    lane producer channel.pending = lane producer [entry] ++ lane producer rest.pending := by
  obtain ⟨found,located,taken⟩ := Option.bind_eq_some_iff.mp dequeued
  split at taken
  next => contradiction
  next first =>
    obtain ⟨rfl,rfl⟩ := Prod.mk.inj (Option.some.inj taken)
    obtain ⟨bound,here⟩ := List.getElem?_eq_some_iff.mp located
    have parts : channel.pending =
        channel.pending.take place ++ [found] ++ channel.pending.drop (place + 1) := by
      rw [← here,List.take_append_getElem bound,List.take_append_drop]
    have remaining : channel.pending.eraseIdx place =
        channel.pending.take place ++ channel.pending.drop (place + 1) :=
      List.eraseIdx_eq_take_drop_succ _ _
    dsimp only
    rw [remaining]
    conv_lhs => rw [parts]
    by_cases owned : found.1 = producer
    -- What stands before the item is of other producers.
    · have before : lane producer (channel.pending.take place) = [] := by
        apply lane_eq_nil
        intro earlier member same
        exact first (List.any_eq_true.mpr ⟨earlier,member,by simp [same,owned]⟩)
      simp only [lane_append,before,List.nil_append]
    · have absent : lane producer [found] = [] := lane_eq_nil (by simpa using owned)
      simp only [lane_append,absent,List.nil_append,List.append_nil]

theorem Channel.perm_dequeue {channel rest : Channel κ α} {place : Nat} {entry : κ × α}
    (dequeued : channel.dequeue place = some (entry,rest)) :
    channel.pending.Perm (entry :: rest.pending) := by
  obtain ⟨found,located,taken⟩ := Option.bind_eq_some_iff.mp dequeued
  split at taken
  next => contradiction
  next =>
    obtain ⟨rfl,rfl⟩ := Prod.mk.inj (Option.some.inj taken)
    obtain ⟨bound,here⟩ := List.getElem?_eq_some_iff.mp located
    rw [← here]
    exact (List.getElem_cons_eraseIdx_perm bound).symm

end Call45Aggr.Library
