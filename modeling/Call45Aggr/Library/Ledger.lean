import Mathlib.Data.List.Perm.Basic
import Mathlib.Data.List.Flatten
import Mathlib.Data.List.Range

/-! Resources that are handed out and have to be given back once each: the account of who
holds which of them, and the holders kept in a list. Changes to a bag that is kept as a list,
and the replay of a log of them: how a copy that still has to apply some stands to its
original. -/
namespace Call45Aggr.Library

/-- How many were handed out, and those given back in order. -/
structure Ledger where
  created : Nat := 0
  cleared : List Nat := []

namespace Ledger

def acquire (ledger : Ledger) : Ledger := {ledger with created := ledger.created + 1}

def release (ledger : Ledger) (id : Nat) : Ledger := {ledger with cleared := ledger.cleared ++ [id]}

/-- Each of them is held once, or was given back once. -/
def Accounts (ledger : Ledger) (held : List Nat) : Prop :=
  (held ++ ledger.cleared).Perm (List.range ledger.created)

theorem accounts_nil : ({} : Ledger).Accounts [] := .nil

section
variable {ledger : Ledger} {held : List Nat}

theorem Accounts.perm (accounts : ledger.Accounts held) {other : List Nat} (same : other.Perm held) :
    ledger.Accounts other :=
  (same.append_right ledger.cleared).trans accounts

theorem Accounts.acquire (accounts : ledger.Accounts held) : ledger.acquire.Accounts (ledger.created :: held) := by
  have latest : (ledger.created :: List.range ledger.created).Perm (List.range (ledger.created + 1)) := by
    rw [List.range_succ]
    exact (List.perm_append_singleton _ _).symm
  exact (accounts.cons ledger.created).trans latest

theorem Accounts.release {id : Nat} (accounts : ledger.Accounts (id :: held)) : (ledger.release id).Accounts held := by
  have moved : (held ++ (ledger.cleared ++ [id])).Perm (id :: (held ++ ledger.cleared)) := by
    rw [← List.append_assoc]
    exact List.perm_append_singleton _ _
  exact moved.trans accounts

theorem Accounts.uncleared (accounts : ledger.Accounts held) {id : Nat} (member : id ∈ held) : id ∉ ledger.cleared := by
  intro cleared
  have distinct : (held ++ ledger.cleared).Nodup := accounts.nodup_iff.mpr List.nodup_range
  exact (List.nodup_append.mp distinct).2.2 id member id cleared rfl

end

/-- Whatever else is held, `before` became `after` with `kept` held on top of it. -/
def Settled (before after : Ledger) (kept : List Nat) : Prop :=
  ∀ held, before.Accounts held → after.Accounts (kept ++ held)

theorem Settled.refl (ledger : Ledger) : ledger.Settled ledger [] := fun _ accounts => accounts

section
variable {first second third : Ledger} {kept : List Nat}

theorem Settled.trans (before : first.Settled second []) (after : second.Settled third kept) :
    first.Settled third kept :=
  fun held accounts => after held (before held accounts)

theorem settled_acquire (ledger : Ledger) : ledger.Settled ledger.acquire [ledger.created] :=
  fun _ accounts => accounts.acquire

theorem Settled.release {id : Nat} (settled : first.Settled second (id :: kept)) :
    first.Settled (second.release id) kept :=
  fun held accounts => (settled held accounts).release

end
end Ledger

section
variable {α β : Type} {f : α → List β} {items : List α} {place : Nat} {item : α}

theorem flatMap_eraseIdx (found : items[place]? = some item) :
    (items.flatMap f).Perm (f item ++ (items.eraseIdx place).flatMap f) := by
  obtain ⟨bound,rfl⟩ := List.getElem?_eq_some_iff.mp found
  simpa using ((List.getElem_cons_eraseIdx_perm bound).symm.flatMap_right f)

theorem flatMap_set (found : items[place]? = some item) (other : α) :
    (f item ++ (items.set place other).flatMap f).Perm (f other ++ items.flatMap f) := by
  obtain ⟨bound,_⟩ := List.getElem?_eq_some_iff.mp found
  have placed : ((items.set place other).flatMap f).Perm (f other ++ (items.eraseIdx place).flatMap f) := by
    simpa using ((List.set_perm_cons_eraseIdx bound other).flatMap_right f)
  calc f item ++ (items.set place other).flatMap f
    _ |>.Perm (f item ++ (f other ++ (items.eraseIdx place).flatMap f)) := placed.append_left _
    _ |>.Perm (f other ++ (f item ++ (items.eraseIdx place).flatMap f)) := by
      rw [← List.append_assoc,← List.append_assoc]
      exact List.perm_append_comm.append_right _
    _ |>.Perm (f other ++ items.flatMap f) := (flatMap_eraseIdx found).symm.append_left _

end

inductive Change (κ : Type)
  | insert (item : κ)
  | keep
  | remove (item : κ)

namespace Change
variable {κ : Type} [BEq κ]

def apply : Change κ → List κ → List κ
  | .insert item, bag => bag ++ [item]
  | .keep, bag => bag
  | .remove item, bag => bag.erase item

def replay (changes : List (Change κ)) (bag : List κ) : List κ :=
  changes.foldl (fun bag change => change.apply bag) bag

@[simp] theorem replay_nil (bag : List κ) : replay [] bag = bag := rfl

@[simp] theorem replay_cons (change : Change κ) (changes : List (Change κ)) (bag : List κ) :
    replay (change :: changes) bag = replay changes (change.apply bag) := rfl

@[simp] theorem replay_append (changes more : List (Change κ)) (bag : List κ) :
    replay (changes ++ more) bag = replay more (replay changes bag) := by
  simp [replay]

theorem apply_perm [LawfulBEq κ] {bag other : List κ} (same : bag.Perm other) (change : Change κ) :
    (change.apply bag).Perm (change.apply other) := by
  cases change with
  | insert item => exact same.append_right [item]
  | keep => exact same
  | remove item => exact same.erase item

end Change

end Call45Aggr.Library
