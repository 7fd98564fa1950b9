import Call45Aggr.Library.SortedMap

/-! A loop over a sorted map whose body may insert into the map it walks. An insertion
behind the cursor is not visited, one ahead of it is. -/
namespace Call45Aggr.Library

namespace SortedMap
variable {κ β : Type} [LinearOrder κ]

def after (m : SortedMap κ β) : Option κ → List (κ × β)
  | none => m.entries
  | some k => m.entries.filter fun p => k < p.1

theorem next?_eq_head? (m : SortedMap κ β) (cursor : Option κ) : m.next? cursor = (m.after cursor).head? := by
  cases cursor with
  | none => rfl
  | some k => simp [next?,after,List.head?_filter]

theorem mem_after {m : SortedMap κ β} {cursor : Option κ} {p : κ × β} :
    p ∈ m.after cursor ↔ p ∈ m.entries ∧ ∀ k ∈ cursor, k < p.1 := by
  cases cursor <;> simp [after]

theorem after_sorted (m : SortedMap κ β) (cursor : Option κ) :
    (m.after cursor).Pairwise (fun p q => p.1 < q.1) := by
  cases cursor with
  | none => exact m.sorted
  | some k => exact m.sorted.filter _

theorem after_nodup (m : SortedMap κ β) (cursor : Option κ) : (m.after cursor).Nodup :=
  (m.after_sorted cursor).imp fun less same => absurd (same ▸ less) (lt_irrefl _)

theorem after_next {m : SortedMap κ β} {cursor : Option κ} {p : κ × β} {rest : List (κ × β)}
    (ahead : m.after cursor = p :: rest) : m.after (some p.1) = rest := by
  have sorted : (p :: rest).Pairwise (fun p q => p.1 < q.1) := ahead ▸ m.after_sorted cursor
  have narrowed : m.after (some p.1) = (m.after cursor).filter fun q => p.1 < q.1 := by
    cases cursor with
    | none => rfl
    | some k =>
      have member : p ∈ m.after (some k) := ahead ▸ List.mem_cons_self
      have beyond : k < p.1 := by simpa using (mem_after.mp member).2
      simp only [after,List.filter_filter]
      refine List.filter_congr fun q _ => ?_
      by_cases less : p.1 < q.1
      · simp [less,beyond.trans less]
      · simp [less]
  rw [narrowed,ahead,List.filter_cons_of_neg (by simp)]
  exact List.filter_eq_self.mpr fun q member => by simpa using List.rel_of_pairwise_cons sorted member

theorem mem_after_insert {m : SortedMap κ β} {q : κ × β} (fresh : m.find? q.1 = none)
    {cursor : Option κ} {p : κ × β} (member : p ∈ m.after cursor) :
    p ∈ (m.insert q.1 q.2).after cursor := by
  obtain ⟨inside,beyond⟩ := mem_after.mp member
  exact mem_after.mpr ⟨mem_insert.mpr (.inr ⟨inside,find?_eq_none.mp fresh p inside⟩),beyond⟩

theorem after_insert_cases {m : SortedMap κ β} {q p : κ × β} {cursor : Option κ}
    (member : p ∈ (m.insert q.1 q.2).after cursor) : p = q ∨ p ∈ m.after cursor := by
  obtain ⟨inside,beyond⟩ := mem_after.mp member
  rcases mem_insert.mp inside with same | ⟨old,_⟩
  · exact .inl same
  · exact .inr (mem_after.mpr ⟨old,beyond⟩)

theorem length_after_insert (m : SortedMap κ β) (q : κ × β) (cursor : Option κ) :
    ((m.insert q.1 q.2).after cursor).length ≤ (m.after cursor).length + 1 := by
  have within : (m.insert q.1 q.2).after cursor ⊆ q :: m.after cursor := by
    intro p member
    rcases after_insert_cases member with rfl | old
    · exact List.mem_cons_self
    · exact List.mem_cons_of_mem q old
  exact (List.subperm_of_subset (after_nodup _ _) within).length_le

end SortedMap

section Walk
variable {σ κ β : Type} [LinearOrder κ] (map : σ → SortedMap κ β) (body : σ → κ × β → σ)

/-- The loop with the cursor at the entry visited last; `none` when the fuel is used up. -/
def walk : Nat → Option κ → σ → Option σ
  | 0, _, _ => none
  | fuel + 1, cursor, s =>
    match (map s).next? cursor with
    | none => some s
    | some p => walk fuel (some p.1) (body s p)

/-- The body leaves the map as it is, or adds one entry on which it would do nothing. -/
def AddsInert : Prop :=
  ∀ s p, map (body s p) = map s ∨
    ∃ q, (∀ s, body s q = s) ∧ (map s).find? q.1 = none ∧ map (body s p) = (map s).insert q.1 q.2

variable {map body}

theorem AddsInert.after (adds : AddsInert map body) (s : σ) (p : κ × β) (cursor : Option κ) :
    (∀ q ∈ (map s).after cursor, q ∈ (map (body s p)).after cursor) ∧
    (∀ q ∈ (map (body s p)).after cursor, q ∈ (map s).after cursor ∨ ∀ s, body s q = s) ∧
    ((map (body s p)).after cursor).length ≤ ((map s).after cursor).length + 1 := by
  rcases adds s p with same | ⟨q,inert,fresh,inserted⟩
  · rw [same]
    exact ⟨fun _ member => member,fun _ member => .inl member,Nat.le_succ _⟩
  · rw [inserted]
    refine ⟨fun _ member => SortedMap.mem_after_insert fresh member,?_,SortedMap.length_after_insert _ q cursor⟩
    intro r member
    rcases SortedMap.after_insert_cases member with rfl | old
    · exact .inr inert
    · exact .inl old

theorem sorted_part {p : κ × β} {tail live : List (κ × β)}
    (ordered : (p :: tail).Pairwise fun p q => p.1 < q.1)
    (sorted : live.Pairwise fun p q => p.1 < q.1) (present : ∀ q ∈ live, q ∈ p :: tail) :
    (∃ later, live = p :: later ∧ ∀ q ∈ later, q ∈ tail) ∨ p ∉ live ∧ ∀ q ∈ live, q ∈ tail := by
  cases live with
  | nil => simp
  | cons first later =>
    have behind : ∀ q ∈ later, q ∈ tail := by
      intro q member
      have apart := List.rel_of_pairwise_cons sorted member
      rcases List.mem_cons.mp (present q (List.mem_cons_of_mem first member)) with rfl | inside
      · -- the first one would then lie before the least
        rcases List.mem_cons.mp (present first List.mem_cons_self) with rfl | inside
        · exact absurd apart (lt_irrefl _)
        · exact absurd apart (lt_asymm (List.rel_of_pairwise_cons ordered inside))
      · exact inside
    rcases List.mem_cons.mp (present first List.mem_cons_self) with rfl | inside
    · exact .inl ⟨later,rfl,behind⟩
    · right
      have within : ∀ q ∈ first :: later, q ∈ tail := by
        intro q member
        rcases List.mem_cons.mp member with rfl | after
        · exact inside
        · exact behind q after
      exact ⟨fun member => lt_irrefl _ (List.rel_of_pairwise_cons ordered (within p member)),within⟩

/-- The walk visits the entries that were there at the start, in key order; added ones
make no difference. The second summand of the fuel is for visits to added entries. -/
theorem walk_eq (adds : AddsInert map body) (fuel : Nat) (cursor : Option κ) (s : σ)
    (live : List (κ × β)) (sorted : live.Pairwise fun p q => p.1 < q.1)
    (present : ∀ p ∈ live, p ∈ (map s).after cursor)
    (rest : ∀ p ∈ (map s).after cursor, p ∈ live ∨ ∀ s, body s p = s)
    (enough : ((map s).after cursor).length + live.length < fuel) :
    walk map body fuel cursor s = some (live.foldl body s) := by
  induction fuel generalizing cursor s live with
  | zero => omega
  | succ fuel ih =>
    rw [walk,SortedMap.next?_eq_head?]
    cases ahead : (map s).after cursor with
    | nil =>
      have none : live = [] := by
        apply List.eq_nil_iff_forall_not_mem.mpr
        intro p member
        simpa [ahead] using present p member
      simp [none]
    | cons p tail =>
      have next : (map s).after (some p.1) = tail := SortedMap.after_next ahead
      have ordered : (p :: tail).Pairwise fun p q => p.1 < q.1 := ahead ▸ (map s).after_sorted cursor
      rw [ahead] at present rest enough
      simp only [List.head?_cons,List.length_cons] at enough ⊢
      rcases sorted_part ordered sorted present with ⟨later,rfl,beyond⟩ | ⟨absent,beyond⟩
      · -- the next entry was there at the start
        obtain ⟨stays,comes,longer⟩ := adds.after s p (some p.1)
        rw [next] at stays comes longer
        rw [ih (some p.1) (body s p) later sorted.of_cons]
        · rfl
        · intro q member
          exact stays q (beyond q member)
        · intro q member
          rcases comes q member with old | inert
          · rcases rest q (List.mem_cons_of_mem p old) with live | inert
            · rcases List.mem_cons.mp live with rfl | inside
              · exact absurd (List.rel_of_pairwise_cons ordered old) (lt_irrefl _)
              · exact .inl inside
            · exact .inr inert
          · exact .inr inert
        · simp only [List.length_cons] at enough
          omega
      · -- it was added on the way
        have inert : ∀ s, body s p = s := (rest p List.mem_cons_self).resolve_left absent
        rw [inert s]
        refine ih (some p.1) s live sorted ?_ ?_ ?_
        · rw [next]
          exact beyond
        · intro q member
          rw [next] at member
          exact rest q (List.mem_cons_of_mem p member)
        · rw [next]
          omega

theorem walk_entries (adds : AddsInert map body) (s : σ) :
    walk map body (2 * (map s).entries.length + 1) none s = some ((map s).entries.foldl body s) :=
  walk_eq adds _ none s (map s).entries (map s).sorted (fun _ member => member)
    (fun _ member => .inl member) (by simp [SortedMap.after]; omega)

end Walk
end Call45Aggr.Library
