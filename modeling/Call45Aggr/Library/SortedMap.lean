import Mathlib.Order.Lattice
import Mathlib.Data.List.Nodup
import Mathlib.Data.List.Perm.Basic

/-! Finite maps as key-ordered association lists, the value-level reading of an
ordered tree map: assignment overwrites, erasure removes one entry, and a walk
visits the entries in key order. The order is a field, so an unsorted map or a
repeated key cannot be built. -/
namespace Call45Aggr.Library

structure SortedMap (κ β : Type) [LinearOrder κ] where
  entries : List (κ × β)
  sorted : entries.Pairwise (fun p q => p.1 < q.1)

namespace SortedMap
variable {κ β : Type} [LinearOrder κ]

def empty : SortedMap κ β := ⟨[],.nil⟩

def find? (m : SortedMap κ β) (k : κ) : Option β :=
  (m.entries.find? (fun p => p.1 = k)).map (·.2)

def erase (m : SortedMap κ β) (k : κ) : SortedMap κ β :=
  ⟨m.entries.filter (fun p => p.1 ≠ k),m.sorted.filter _⟩

def insert (m : SortedMap κ β) (k : κ) (v : β) : SortedMap κ β where
  entries := m.entries.filter (fun p => p.1 < k) ++ (k,v) :: m.entries.filter (fun p => k < p.1)
  sorted := by
    refine List.pairwise_append.mpr ⟨m.sorted.filter _,List.pairwise_cons.mpr ⟨?_,m.sorted.filter _⟩,?_⟩
    · intro q member
      simpa using (List.mem_filter.mp member).2
    · intro p before q member
      have below : p.1 < k := by simpa using (List.mem_filter.mp before).2
      rcases List.mem_cons.mp member with rfl | after
      · exact below
      · exact below.trans (by simpa using (List.mem_filter.mp after).2)

def filter (m : SortedMap κ β) (keep : κ × β → Bool) : SortedMap κ β :=
  ⟨m.entries.filter keep,m.sorted.filter _⟩

/-- The entry a walk visits after `cursor`; the first one when there is none. -/
def next? (m : SortedMap κ β) : Option κ → Option (κ × β)
  | none => m.entries.head?
  | some k => m.entries.find? (fun p => k < p.1)

def values (m : SortedMap κ β) : List β := m.entries.map (·.2)

@[simp] theorem values_empty : (empty : SortedMap κ β).values = [] := rfl

theorem entries_nodup (m : SortedMap κ β) : m.entries.Nodup :=
  m.sorted.imp fun less same => absurd (same ▸ less) (lt_irrefl _)

theorem key_unique (m : SortedMap κ β) {p q : κ × β} (hp : p ∈ m.entries) (hq : q ∈ m.entries)
    (same : p.1 = q.1) : p = q := by
  have distinct : (m.entries.map Prod.fst).Nodup := by
    refine List.pairwise_map.mpr (m.sorted.imp ?_)
    exact fun less => less.ne
  exact List.inj_on_of_nodup_map distinct hp hq same

theorem find?_eq_some {m : SortedMap κ β} {k : κ} {v : β} :
    m.find? k = some v ↔ (k,v) ∈ m.entries := by
  constructor
  · intro found
    obtain ⟨p,located,rfl⟩ := Option.map_eq_some_iff.mp found
    have key : p.1 = k := by simpa using List.find?_some located
    exact key ▸ List.mem_of_find?_eq_some located
  · intro member
    cases located : m.entries.find? (fun p => p.1 = k) with
    | none => simpa using List.find?_eq_none.mp located _ member
    | some p =>
      have key : p.1 = k := by simpa using List.find?_some located
      have same := m.key_unique (List.mem_of_find?_eq_some located) member key
      simp [find?,located,same]

theorem find?_eq_none {m : SortedMap κ β} {k : κ} :
    m.find? k = none ↔ ∀ p ∈ m.entries, p.1 ≠ k := by
  simp [find?,List.find?_eq_none]

theorem find?_of_mem {m : SortedMap κ β} {p : κ × β} (member : p ∈ m.entries) :
    m.find? p.1 = some p.2 :=
  find?_eq_some.mpr member

@[simp] theorem find?_empty (k : κ) : (empty : SortedMap κ β).find? k = none := rfl

theorem mem_erase {m : SortedMap κ β} {k : κ} {p : κ × β} :
    p ∈ (m.erase k).entries ↔ p ∈ m.entries ∧ p.1 ≠ k := by
  simp [erase]

theorem mem_insert {m : SortedMap κ β} {k : κ} {v : β} {p : κ × β} :
    p ∈ (m.insert k v).entries ↔ p = (k,v) ∨ p ∈ m.entries ∧ p.1 ≠ k := by
  simp only [insert,List.mem_append,List.mem_cons,List.mem_filter,decide_eq_true_eq]
  constructor
  · intro placed
    rcases placed with ⟨member,less⟩ | same | ⟨member,less⟩
    · exact .inr ⟨member,less.ne⟩
    · exact .inl same
    · exact .inr ⟨member,less.ne'⟩
  · intro either
    rcases either with same | ⟨member,differs⟩
    · exact .inr (.inl same)
    · rcases lt_or_gt_of_ne differs with less | less
      · exact .inl ⟨member,less⟩
      · exact .inr (.inr ⟨member,less⟩)

@[simp] theorem find?_insert (m : SortedMap κ β) (k j : κ) (v : β) :
    (m.insert k v).find? j = if j = k then some v else m.find? j := by
  ext w
  split_ifs with same
  · subst same
    rw [find?_eq_some,mem_insert]
    simp [eq_comm]
  · rw [find?_eq_some,mem_insert,find?_eq_some]
    simp [same]

@[simp] theorem find?_erase (m : SortedMap κ β) (k j : κ) :
    (m.erase k).find? j = if j = k then none else m.find? j := by
  ext w
  split_ifs with same
  · rw [find?_eq_some,mem_erase]
    simp [same]
  · rw [find?_eq_some,mem_erase,find?_eq_some]
    simp [same]

@[ext] theorem ext_find? {m n : SortedMap κ β} (same : ∀ k, m.find? k = n.find? k) : m = n := by
  have members (p : κ × β) : p ∈ m.entries ↔ p ∈ n.entries := by
    rw [← find?_eq_some (m := m),← find?_eq_some (m := n),same p.1]
  have permuted := (List.perm_ext_iff_of_nodup m.entries_nodup n.entries_nodup).mpr members
  have equal : m.entries = n.entries :=
    permuted.eq_of_pairwise (fun p q _ _ less more => absurd less more.not_gt) m.sorted n.sorted
  cases m
  cases n
  cases equal
  rfl

theorem find?_foldl_erase (m : SortedMap κ β) (keys : List κ) (k : κ) :
    (keys.foldl erase m).find? k = if k ∈ keys then none else m.find? k := by
  induction keys generalizing m with
  | nil => simp
  | cons key keys ih =>
    rw [List.foldl_cons,ih,find?_erase]
    by_cases same : k = key <;> by_cases later : k ∈ keys <;> simp [same,later]

theorem find?_foldl_insert {pairs : List (κ × β)} (distinct : pairs.Pairwise fun p q => p.1 ≠ q.1)
    (m : SortedMap κ β) {k : κ} {v : β} :
    (pairs.foldl (fun m p => m.insert p.1 p.2) m).find? k = some v ↔
      (k,v) ∈ pairs ∨ (∀ p ∈ pairs, p.1 ≠ k) ∧ m.find? k = some v := by
  induction pairs generalizing m with
  | nil => simp
  | cons first pairs ih =>
    obtain ⟨apart,distinct⟩ := List.pairwise_cons.mp distinct
    rw [List.foldl_cons,ih distinct,find?_insert,List.forall_mem_cons,List.mem_cons]
    by_cases same : k = first.1
    · subst same
      have later : (first.1,v) ∉ pairs := fun member => apart _ member rfl
      have fresh : ∀ p ∈ pairs, p.1 ≠ first.1 := fun p member => (apart p member).symm
      rw [if_pos rfl,or_iff_right later,and_iff_right fresh]
      simp [Prod.ext_iff,later,eq_comm]
    · have other : (k,v) ≠ first := fun equal => same (congrArg Prod.fst equal)
      simp [same,other,Ne.symm same]

/-- Assignments of all entries in any order build the map. -/
theorem foldl_insert {pairs : List (κ × β)} {m : SortedMap κ β} (order : pairs.Perm m.entries) :
    pairs.foldl (fun m p => m.insert p.1 p.2) empty = m := by
  have distinct : pairs.Pairwise fun p q => p.1 ≠ q.1 :=
    (order.pairwise_iff Ne.symm).mpr (m.sorted.imp fun less => less.ne)
  ext k v
  rw [find?_foldl_insert distinct,order.mem_iff,find?_empty,find?_eq_some]
  simp

theorem erase_absent {m : SortedMap κ β} {k : κ} (absent : m.find? k = none) : m.erase k = m := by
  ext j : 1
  rw [find?_erase]
  split_ifs with same
  · exact (same ▸ absent).symm
  · rfl

theorem perm_erase {m : SortedMap κ β} {k : κ} {v : β} (found : m.find? k = some v) :
    m.entries.Perm ((k,v) :: (m.erase k).entries) := by
  have fresh : (k,v) ∉ (m.erase k).entries := fun member => (mem_erase.mp member).2 rfl
  refine (List.perm_ext_iff_of_nodup m.entries_nodup
    (List.nodup_cons.mpr ⟨fresh,(m.erase k).entries_nodup⟩)).mpr fun p => ?_
  rw [List.mem_cons,mem_erase]
  constructor
  · intro member
    by_cases key : p.1 = k
    · exact .inl (m.key_unique member (find?_eq_some.mp found) key)
    · exact .inr ⟨member,key⟩
  · intro either
    rcases either with rfl | ⟨member,_⟩
    · exact find?_eq_some.mp found
    · exact member

theorem perm_insert (m : SortedMap κ β) (k : κ) (v : β) :
    (m.insert k v).entries.Perm ((k,v) :: (m.erase k).entries) := by
  have erased : (m.insert k v).erase k = m.erase k := by
    ext j : 1
    by_cases same : j = k <;> simp [same]
  simpa only [erased] using perm_erase (m := m.insert k v) (k := k) (v := v) (by simp)

theorem values_erase {m : SortedMap κ β} {k : κ} {v : β} (found : m.find? k = some v) :
    m.values.Perm (v :: (m.erase k).values) :=
  (perm_erase found).map Prod.snd

theorem values_assign (m : SortedMap κ β) (k : κ) (v : β) :
    (m.insert k v).values.Perm (v :: (m.erase k).values) :=
  (m.perm_insert k v).map Prod.snd

theorem values_insert (m : SortedMap κ β) (k : κ) (v : β) :
    ((m.insert k v).values ++ (m.find? k).toList).Perm (v :: m.values) := by
  refine ((m.values_assign k v).append_right _).trans (List.Perm.cons v ?_)
  cases found : m.find? k with
  | none => simp [erase_absent found]
  | some old => exact (List.perm_append_singleton old _).trans (values_erase found).symm

theorem values_filter (m : SortedMap κ β) (keep : κ × β → Bool) :
    ((m.filter keep).values ++ (m.filter fun p => !keep p).values).Perm m.values := by
  simpa [values,filter,List.map_append] using
    (List.filter_append_perm keep m.entries).map Prod.snd

theorem mem_values {m : SortedMap κ β} {v : β} : v ∈ m.values ↔ ∃ k, m.find? k = some v := by
  simp [values,find?_eq_some]

theorem find?_filter {m : SortedMap κ β} {keep : κ × β → Bool} {k : κ} {v : β} :
    (m.filter keep).find? k = some v ↔ m.find? k = some v ∧ keep (k,v) := by
  simp [find?_eq_some,filter]

theorem find?_filter_eq (m : SortedMap κ β) (keep : κ × β → Bool) (k : κ) :
    (m.filter keep).find? k = (m.find? k).filter fun v => keep (k,v) := by
  ext v
  rw [find?_filter,Option.filter_eq_some_iff]

theorem filter_key (m : SortedMap κ β) (k : κ) :
    (m.entries.filter fun p => p.1 = k) = ((m.find? k).map fun v => (k,v)).toList := by
  cases found : m.find? k with
  | none =>
    have absent := find?_eq_none.mp found
    simpa using absent
  | some v =>
    have rest : ((m.erase k).entries.filter fun p => p.1 = k) = [] := by
      simp [erase,List.filter_filter]
    have whole := (perm_erase found).filter fun p => p.1 = k
    rw [List.filter_cons_of_pos (by simp),rest] at whole
    exact List.perm_singleton.mp whole

theorem filter_absent {m : SortedMap κ β} {keep : κ × β → Bool} {k : κ}
    (absent : m.find? k = none) : (m.filter keep).find? k = none := by
  rw [find?_filter_eq,absent]
  rfl

theorem next?_mem {m : SortedMap κ β} {cursor : Option κ} {p : κ × β}
    (found : m.next? cursor = some p) : m.find? p.1 = some p.2 := by
  apply find?_of_mem
  cases cursor with
  | none => exact List.mem_of_head? found
  | some k => exact List.mem_of_find?_eq_some found

end SortedMap
end Call45Aggr.Library
