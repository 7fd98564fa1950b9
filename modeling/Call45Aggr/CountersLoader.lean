import Call45Aggr.ObjLists

/-! `CountersLoader::load`: the counter that is changed in place and the one that is built anew. -/
namespace Call45Aggr
open Library

/-- A counter; `data` is the `unordered_map` from the ids. -/
structure ObjCounter (T : Type) where
  data : SortedMap Int T := .empty
  loadtime : Int := 0
  dataVersion : Nat := 0

namespace ObjCounter

def load {T : Type} [Inhabited T] (counter : ObjCounter T) (res : BDbResult T) : List T × ObjCounter T :=
  (StdVector.parse res.rows 0 (List.replicate res.rows.length default),{counter with loadtime := res.time})

theorem load_eq {T : Type} [Inhabited T] (counter : ObjCounter T) (res : BDbResult T) :
    counter.load res = (res.rows,{counter with loadtime := res.time}) := by
  have parsed := StdVector.parse_replicate res.rows [] default
  simp only [List.length_nil,List.nil_append] at parsed
  rw [load,parsed]

end ObjCounter

structure CountersLoader (T : Type) where
  counter : Option (ObjCounter T) := none

/-- One row, and no other, for each of the listed ids that exists. -/
structure Answer {T : Type} (idOf : T → Int) (ids : List Int) (existing : Int → Prop) (rows : List T) : Prop where
  once : (rows.map idOf).Nodup
  exact : ∀ id, id ∈ rows.map idOf ↔ id ∈ ids ∧ existing id

variable {T : Type}

namespace CountersLoader

def haveNewRows (l : CountersLoader T) (ids : List Int) : Bool :=
  match l.counter with
  | none => true
  | some counter => ids.any fun id => (counter.data.find? id).isNone

def assign (idOf : T → Int) (data : SortedMap Int T) (rows : List T) : SortedMap Int T :=
  rows.foldl (fun data v => data.insert (idOf v) v) data

theorem find?_assign {idOf : T → Int} {rows : List T} (once : (rows.map idOf).Nodup) (data : SortedMap Int T)
    (id : Int) : (assign idOf data rows).find? id = (rows.find? fun row => idOf row = id).or (data.find? id) := by
  unfold assign
  induction rows generalizing data with
  | nil => rfl
  | cons row rows ih =>
    obtain ⟨fresh,once⟩ := List.nodup_cons.mp once
    rw [List.foldl_cons,ih once,SortedMap.find?_insert]
    by_cases own : idOf row = id
    · have later : (rows.find? fun row => idOf row = id) = none := by
        refine List.find?_eq_none.mpr fun other member same => fresh ?_
        rw [own,← of_decide_eq_true same]
        exact List.mem_map_of_mem member
      simp [own,later]
    · simp [own,Ne.symm own]

/-- As many rows as ids leave no id without its row, and repeat none. -/
theorem answer_full {idOf : T → Int} {ids : List Int} {existing : Int → Prop} {rows : List T}
    (answer : Answer idOf ids existing rows) (full : rows.length = ids.length) {id : Int} (listed : id ∈ ids) :
    id ∈ rows.map idOf := by
  have inside : rows.map idOf ⊆ ids := fun id member => ((answer.exact id).mp member).1
  have within : (rows.map idOf).Subperm ids := List.subperm_of_subset answer.once inside
  have perm := within.perm_of_length_le (by simp [full])
  exact perm.symm.subset listed

/-- The loader afterwards, and the data version of the repository. -/
def load [Inhabited T] (idOf : T → Int) (l : CountersLoader T) (ids : List Int) (res : BDbResult T) (version : Nat) :
    CountersLoader T × Nat :=
  let (updatedData,currentCounter) := (l.counter.getD {}).load res
  let haveDeletedRows : Bool := updatedData.length != ids.length
  if l.counter.isNone || haveDeletedRows || l.haveNewRows ids then
    let newCounter : ObjCounter T := {data := assign idOf (ids.foldl .erase currentCounter.data) updatedData}
    ({counter := some {newCounter with dataVersion := version}},version + 1)
  else ({counter := some {currentCounter with data := assign idOf currentCounter.data updatedData}},version)

/-- On both branches the counter is the old one without the listed ids and with the rows of the answer. -/
theorem load_updates [Inhabited T] (idOf : T → Int) (l : CountersLoader T) (ids : List Int) (existing : Int → Prop)
    (res : BDbResult T) (version : Nat) (answer : Answer idOf ids existing res.rows) :
    ∃ counter, (l.load idOf ids res version).1.counter = some counter ∧
      ∀ id, counter.data.find? id = (res.rows.find? fun row => idOf row = id).or
        (if id ∈ ids then none else (l.counter.getD {}).data.find? id) := by
  unfold load
  rw [ObjCounter.load_eq]
  dsimp only
  split
  next =>
    refine ⟨_,rfl,fun id => ?_⟩
    dsimp only
    rw [find?_assign answer.once,SortedMap.find?_foldl_erase]
  next unchanged =>
    have full : res.rows.length = ids.length := by
      by_contra other
      exact unchanged (by simp [other])
    refine ⟨_,rfl,fun id => ?_⟩
    dsimp only
    rw [find?_assign answer.once]
    split
    next listed =>
      obtain ⟨row,member,own⟩ := List.mem_map.mp (answer_full answer full listed)
      cases found : res.rows.find? fun row => idOf row = id with
      | some => rfl
      | none => exact absurd own (by simpa using List.find?_eq_none.mp found row member)
    next => rfl

/-- One answer changes the counter in place, another one removes an id. -/
theorem load_both :
    let l : CountersLoader (Int × Nat) := {counter := some {data := .insert (.insert .empty 1 (1,10)) 2 (2,20)}}
    let inPlace := load Prod.fst l [2,1] ⟨[(1,11),(2,21)],0,0⟩ 5
    let rebuilt := load Prod.fst l [2,2,3] ⟨[(3,31)],0,0⟩ 5
    inPlace.2 = 5 ∧ rebuilt.2 = 6 ∧
      (∃ counter, inPlace.1.counter = some counter ∧ counter.data.find? 2 = some (2,21)) ∧
      ∃ counter, rebuilt.1.counter = some counter ∧ counter.data.find? 2 = none ∧
        counter.data.find? 1 = some (1,10) := by
  intro l inPlace rebuilt
  have first : Answer Prod.fst [2,1] (· ≤ 2) [((1,11) : Int × Nat),(2,21)] :=
    ⟨by decide,fun id => by simp; omega⟩
  have second : Answer Prod.fst [2,2,3] (· = 3) [((3,31) : Int × Nat)] :=
    ⟨by decide,fun id => by simp; omega⟩
  obtain ⟨counter,found,data⟩ := load_updates Prod.fst l [2,1] (· ≤ 2) ⟨[(1,11),(2,21)],0,0⟩ 5 first
  obtain ⟨other,found',data'⟩ := load_updates Prod.fst l [2,2,3] (· = 3) ⟨[(3,31)],0,0⟩ 5 second
  exact ⟨by decide,by decide,⟨counter,found,data 2⟩,other,found',data' 2,data' 1⟩

end CountersLoader
end Call45Aggr
