import Mathlib.Order.Lattice
import Mathlib.Order.Monotone.Basic
import Mathlib.Data.List.Nodup
import Mathlib.Data.List.Perm.Basic

/-! Maps with several entries under one key, as lists sorted by key in which equal keys keep the order of their
insertion, and what becomes of that order when the keys are reversed. -/
namespace Call45Aggr.Library

structure Multimap (κ β : Type) [LinearOrder κ] where
  entries : List (κ × β)
  sorted : entries.Pairwise fun p q => p.1 ≤ q.1

namespace Multimap
variable {κ β : Type} [LinearOrder κ]

def empty : Multimap κ β := ⟨[],.nil⟩

/-- The entry comes behind all those of its key. -/
def insert (m : Multimap κ β) (k : κ) (v : β) : Multimap κ β where
  entries := m.entries.filter (fun p => p.1 ≤ k) ++ (k,v) :: m.entries.filter (fun p => k < p.1)
  sorted := by
    refine List.pairwise_append.mpr ⟨m.sorted.filter _,List.pairwise_cons.mpr ⟨?_,m.sorted.filter _⟩,?_⟩
    · intro q member
      have above : k < q.1 := by simpa using (List.mem_filter.mp member).2
      exact above.le
    · intro p before q member
      have below : p.1 ≤ k := by simpa using (List.mem_filter.mp before).2
      rcases List.mem_cons.mp member with rfl | after
      · exact below
      · have above : k < q.1 := by simpa using (List.mem_filter.mp after).2
        exact below.trans above.le

def values (m : Multimap κ β) : List β := m.entries.map (·.2)

def insertAll (m : Multimap κ β) (l : List (κ × β)) : Multimap κ β :=
  l.foldl (fun m p => m.insert p.1 p.2) m

/-- The entries of one key, in the order of their insertion. -/
def under (k : κ) (l : List (κ × β)) : List (κ × β) := l.filter fun p => p.1 = k

theorem under_append (k : κ) (l l' : List (κ × β)) : under k (l ++ l') = under k l ++ under k l' :=
  List.filter_append ..

theorem under_filter (keep : κ → Bool) (k : κ) (l : List (κ × β)) :
    under k (l.filter fun p => keep p.1) = if keep k then under k l else [] := by
  rw [under,List.filter_filter]
  split
  next kept =>
    refine List.filter_congr fun p _ => ?_
    by_cases same : p.1 = k <;> simp [same,kept]
  next dropped =>
    refine List.filter_eq_nil_iff.mpr fun p _ => ?_
    by_cases same : p.1 = k <;> simp [same,dropped]

theorem under_insert (m : Multimap κ β) (p : κ × β) (k : κ) :
    under k (m.insert p.1 p.2).entries = under k (m.entries ++ [p]) := by
  have split : (m.insert p.1 p.2).entries =
      m.entries.filter (fun q => q.1 ≤ p.1) ++ ([p] ++ m.entries.filter fun q => p.1 < q.1) := rfl
  rw [split,under_append,under_append,under_append,under_filter fun j => j ≤ p.1,under_filter fun j => p.1 < j]
  rcases lt_trichotomy p.1 k with below | same | above
  · simp [under,below,not_le_of_gt below,below.ne]
  · simp [under,same]
  · simp [above.le,not_lt_of_gt above]

theorem under_insertAll (m : Multimap κ β) (l : List (κ × β)) (k : κ) :
    under k (m.insertAll l).entries = under k (m.entries ++ l) := by
  induction l generalizing m with
  | nil => simp [insertAll]
  | cons p l ih =>
    rw [insertAll,List.foldl_cons]
    refine (ih (m.insert p.1 p.2)).trans ?_
    rw [under_append,under_insert,← under_append,List.append_assoc,List.singleton_append]

theorem insert_perm (m : Multimap κ β) (p : κ × β) : (m.insert p.1 p.2).entries.Perm (p :: m.entries) := by
  have kept : (m.entries.filter fun q => !decide (q.1 ≤ p.1)) = m.entries.filter fun q => p.1 < q.1 :=
    List.filter_congr fun q _ => by simp [← decide_not]
  have parts := List.filter_append_perm (fun q => decide (q.1 ≤ p.1)) m.entries
  rw [kept] at parts
  exact List.perm_middle.trans (parts.cons p)

theorem insertAll_perm (m : Multimap κ β) (l : List (κ × β)) : (m.insertAll l).entries.Perm (m.entries ++ l) := by
  induction l generalizing m with
  | nil => simp [insertAll]
  | cons p l ih => exact (ih (m.insert p.1 p.2)).trans (((m.insert_perm p).append_right l).trans List.perm_middle.symm)

/-- A sorted list is known from what it has under each key. -/
theorem eq_of_under {l l' : List (κ × β)} (sorted : l.Pairwise fun p q => p.1 ≤ q.1)
    (sorted' : l'.Pairwise fun p q => p.1 ≤ q.1) (same : ∀ k, under k l = under k l') : l = l' := by
  induction l generalizing l' with
  | nil =>
    refine (List.eq_nil_iff_forall_not_mem.mpr fun p member => ?_).symm
    have inside : p ∈ under p.1 l' := List.mem_filter.mpr ⟨member,by simp⟩
    rw [← same p.1] at inside
    cases inside
  | cons p l ih =>
    have inside : p ∈ under p.1 l' := by
      rw [← same p.1]
      exact List.mem_filter.mpr ⟨List.mem_cons_self,by simp⟩
    cases l' with
    | nil => cases inside
    | cons q l' =>
      have back : q ∈ under q.1 (p :: l) := by
        rw [same q.1]
        exact List.mem_filter.mpr ⟨List.mem_cons_self,by simp⟩
      have least {x y : κ × β} {xs : List (κ × β)} (order : (x :: xs).Pairwise fun p q => p.1 ≤ q.1)
          (member : y ∈ x :: xs) : x.1 ≤ y.1 := by
        rcases List.mem_cons.mp member with rfl | later
        · exact le_rfl
        · exact (List.pairwise_cons.mp order).1 y later
      have keys : p.1 = q.1 :=
        le_antisymm (least sorted (List.mem_filter.mp back).1) (least sorted' (List.mem_filter.mp inside).1)
      have first := same p.1
      simp only [under,List.filter_cons,keys,decide_true,if_true] at first
      obtain ⟨rfl,-⟩ := List.cons.inj first
      refine congrArg (p :: ·) (ih sorted.of_cons sorted'.of_cons fun k => ?_)
      have rest := same k
      simp only [under,List.filter_cons] at rest
      split at rest
      next => exact (List.cons.inj rest).2
      next => exact rest

theorem under_entries (l : List (κ × β)) (k : κ) : under k (empty.insertAll l).entries = under k l := by
  rw [under_insertAll]
  rfl

/-- What the entries hold has no part in their order. -/
theorem insertAll_map {γ : Type} (g : β → γ) (l : List (κ × β)) :
    (empty.insertAll (l.map fun p => (p.1,g p.2))).entries = (empty.insertAll l).entries.map fun p => (p.1,g p.2) := by
  have mapped (k : κ) (xs : List (κ × β)) :
      under k (xs.map fun p => (p.1,g p.2)) = (under k xs).map fun p => (p.1,g p.2) := List.filter_map
  refine eq_of_under (Multimap.sorted _) (List.pairwise_map.mpr (Multimap.sorted _)) fun k => ?_
  rw [under_entries,mapped,mapped,under_entries]

theorem reverse_of_short {α : Type} {l : List α} (short : l.length ≤ 1) : l.reverse = l := by
  match l with
  | [] => rfl
  | [_] => rfl

theorem short_of_reverse {α : Type} {l : List α} (distinct : l.Nodup) (same : l.reverse = l) : l.length ≤ 1 := by
  match l with
  | [] => exact Nat.zero_le 1
  | [_] => exact Nat.le_refl 1
  | x :: y :: rest =>
    have last : (y :: rest).getLast? = some x := by
      rw [← List.getLast?_cons_cons,← List.head?_reverse,same]
      rfl
    exact absurd (List.mem_of_getLast? last) (List.nodup_cons.mp distinct).1

theorem nodup_keys_iff {l : List (κ × β)} : (l.map Prod.fst).Nodup ↔ ∀ k, (under k l).length ≤ 1 := by
  rw [List.nodup_iff_count_le_one]
  refine forall_congr' fun k => ?_
  have counted : (l.map Prod.fst).count k = (under k l).length := by
    rw [List.count_eq_countP,List.countP_map,List.countP_eq_length_filter]
    rfl
  rw [counted]

section
variable {κ' : Type} [LinearOrder κ'] {f : κ → κ'}

theorem under_rekeyed (anti : StrictAnti f) (k : κ) (l : List (κ × β)) :
    under (f k) (l.map fun p => (f p.1,p.2)) = (under k l).map fun p => (f p.1,p.2) := by
  rw [under,List.filter_map]
  refine congrArg _ (List.filter_congr fun p _ => ?_)
  simp [anti.injective.eq_iff]

/-- With reversed keys the entries come in the reverse order if no two have one key, and only then. -/
theorem insertAll_reversed (anti : StrictAnti f) {l : List (κ × β)} (distinct : l.Nodup) :
    (empty.insertAll (l.map fun p => (f p.1,p.2))).entries =
        ((empty.insertAll l).entries.map fun p => (f p.1,p.2)).reverse ↔ (l.map Prod.fst).Nodup := by
  have reversed (k : κ) : under (f k) ((empty.insertAll l).entries.map fun p => (f p.1,p.2)).reverse =
      ((under k l).reverse).map fun p => (f p.1,p.2) := by
    rw [under,List.filter_reverse,← under,under_rekeyed anti,under_entries,List.map_reverse]
  have injective : Function.Injective fun p : κ × β => (f p.1,p.2) := by
    rintro ⟨k,v⟩ ⟨k',v'⟩ same
    obtain ⟨keys,rfl⟩ := Prod.mk.inj same
    exact Prod.ext (anti.injective keys) rfl
  rw [nodup_keys_iff]
  constructor
  · intro same k
    refine short_of_reverse (distinct.filter _) ?_
    have equal := congrArg (under (f k)) same
    rw [under_entries,under_rekeyed anti,reversed] at equal
    exact (List.map_injective_iff.mpr injective equal).symm
  · intro short
    refine eq_of_under (Multimap.sorted _) ?_ fun k => ?_
    · refine List.pairwise_reverse.mpr (List.pairwise_map.mpr ((Multimap.sorted _).imp ?_))
      exact fun less => anti.antitone less
    · by_cases reached : ∃ j, f j = k
      · obtain ⟨j,rfl⟩ := reached
        rw [under_entries,under_rekeyed anti,reversed,reverse_of_short (short j)]
      · have none (xs : List (κ × β)) : ∀ p ∈ xs.map (fun p => (f p.1,p.2)), ¬decide (p.1 = k) = true := by
          intro p member
          obtain ⟨q,-,rfl⟩ := List.mem_map.mp member
          simpa using fun same => reached ⟨q.1,same⟩
        rw [under_entries,under,List.filter_eq_nil_iff.mpr (none l),under,List.filter_reverse,
          List.filter_eq_nil_iff.mpr (none _),List.reverse_nil]

end

/-- Items as they stand in the multimap that they are put into under a key of theirs. -/
def arranged (key : β → κ) (items : List β) : List β :=
  (empty.insertAll (items.map fun item => (key item,item))).values

theorem arranged_perm (key : β → κ) (items : List β) : (arranged key items).Perm items := by
  have perm := (empty.insertAll_perm (items.map fun item => (key item,item))).map Prod.snd
  simpa [arranged,values,empty,Function.comp_def] using perm

theorem values_insertAll {γ : Type} (key : β → κ) (g : β → γ) (items : List β) :
    (empty.insertAll (items.map fun item => (key item,g item))).values = (arranged key items).map g := by
  have mapped := congrArg (List.map Prod.snd) (insertAll_map g (items.map fun item => (key item,item)))
  simpa [arranged,values,Function.comp_def] using mapped

theorem entries_arranged (key : β → κ) (items : List β) :
    (empty.insertAll (items.map fun item => (key item,item))).entries =
      (arranged key items).map fun item => (key item,item) := by
  rw [arranged,values,List.map_map]
  refine (List.map_id _).symm.trans (List.map_congr_left fun p member => ?_)
  have inside := (empty.insertAll_perm _).mem_iff.mp member
  obtain ⟨item,-,rfl⟩ := List.mem_map.mp inside
  rfl

theorem arranged_reversed {κ' : Type} [LinearOrder κ'] {f : κ → κ'} (anti : StrictAnti f) (key : β → κ)
    {items : List β} (distinct : items.Nodup) :
    arranged (fun item => f (key item)) items = (arranged key items).reverse ↔ (items.map key).Nodup := by
  have injective {κ : Type} (key : β → κ) : Function.Injective fun item => (key item,item) :=
    fun _ _ same => (Prod.mk.inj same).2
  have rekeyed : items.map (fun item => (f (key item),item)) =
      (items.map fun item => (key item,item)).map fun p => (f p.1,p.2) := by
    rw [List.map_map]
    rfl
  have keys : (items.map key) = (items.map fun item => (key item,item)).map Prod.fst := by
    rw [List.map_map]
    rfl
  have entries := entries_arranged (fun item => f (key item)) items
  rw [rekeyed] at entries
  rw [keys,← insertAll_reversed anti (distinct.map (injective key)),entries,entries_arranged,List.map_map,
    ← List.map_reverse]
  exact (List.map_injective_iff.mpr (injective fun item => f (key item))).eq_iff.symm

end Multimap
end Call45Aggr.Library
