import Call45Aggr.Model
import Call45Aggr.Common
import Mathlib.Data.Finset.Insert

/-! `ObjList::load` and the lists whose `after_load` builds an index over their rows. -/
namespace Call45Aggr
open Library

structure Pointer where
  buffer : Nat
  index : Nat
  deriving DecidableEq

/-- A `std::vector`, with the storage where its elements are. -/
structure StdVector (T : Type) where
  buffer : Nat := 0
  capacity : Nat := 0
  items : List T := []

/-- The rows of a query, the clock at their arrival, and the storage that is there for them
if the old one is too small. -/
structure BDbResult (T : Type) where
  rows : List T
  time : Int
  buffer : Nat

namespace StdVector
variable {T : Type}

def clear (v : StdVector T) : StdVector T := {v with items := []}

def resize [Inhabited T] (v : StdVector T) (size buffer : Nat) : StdVector T :=
  let items := v.items.take size ++ List.replicate (size - v.items.length) default
  if size ≤ v.capacity then {v with items := items}
  else {buffer := buffer, capacity := max size (2 * v.items.length), items := items}

/-- `parse_item` of each row of a result into the element of its position. -/
def parse : List T → Nat → List T → List T
  | [], _, items => items
  | row :: rows, position, items => parse rows (position + 1) (items.set position row)

def fill [Inhabited T] (v : StdVector T) (res : BDbResult T) : StdVector T :=
  let data := v.clear.resize res.rows.length res.buffer
  {data with items := parse res.rows 0 data.items}

def refs (v : StdVector T) : List (Pointer × T) := v.items.mapIdx fun i item => (⟨v.buffer,i⟩,item)

def refsOf (v : StdVector T) (key : T → String) (uniqueid : String) : List Pointer :=
  (v.refs.filter fun ref => key ref.2 = uniqueid).map (·.1)

theorem parse_replicate (rows done : List T) (filler : T) :
    parse rows done.length (done ++ List.replicate rows.length filler) = done ++ rows := by
  induction rows generalizing done with
  | nil => simp [parse]
  | cons row rows ih =>
    have next := ih (done ++ [row])
    rw [List.length_append,List.length_singleton] at next
    have set : (done ++ List.replicate (row :: rows).length filler).set done.length row =
        done ++ [row] ++ List.replicate rows.length filler := by
      simp [List.replicate_succ]
    simp only [parse,set,next]
    simp

theorem fill_items [Inhabited T] (v : StdVector T) (res : BDbResult T) : (v.fill res).items = res.rows := by
  have size : (v.clear.resize res.rows.length res.buffer).items =
      List.replicate res.rows.length default := by
    unfold resize clear
    split <;> simp
  show parse res.rows 0 _ = res.rows
  rw [size]
  exact parse_replicate res.rows [] default

theorem exists_ref {v : StdVector T} {holds : T → Prop} :
    (∃ ref ∈ v.refs, holds ref.2) ↔ ∃ row ∈ v.items, holds row := by
  have rows : v.refs.map (·.2) = v.items := by simp [refs,List.mapIdx_eq_zipIdx_map,Function.comp_def]
  rw [← rows]
  constructor
  · intro found
    obtain ⟨ref,member,holds⟩ := found
    exact ⟨ref.2,List.mem_map_of_mem member,holds⟩
  · intro found
    obtain ⟨row,member,holds⟩ := found
    obtain ⟨ref,placed,rfl⟩ := List.mem_map.mp member
    exact ⟨ref,placed,holds⟩

theorem refsOf_nil {v : StdVector T} {key : T → String} {uniqueid : String} :
    v.refsOf key uniqueid = [] ↔ ¬∃ row ∈ v.items, key row = uniqueid := by
  rw [← exists_ref]
  simp [refsOf]

end StdVector

structure ObjList (T Index : Type) where
  data : StdVector T := {}
  loadtime : Int := 0
  index : Index

/-- The virtual functions of a list; `none` is a read of a row that is not there. -/
structure Hooks (T Index : Type) where
  beforeLoad : Index → Index := id
  afterLoad : StdVector T → Index → Option Index

namespace ObjList
variable {T Index : Type} [Inhabited T] {hooks : Hooks T Index}

def load (hooks : Hooks T Index) (list : ObjList T Index) (res : BDbResult T) : Option (ObjList T Index) :=
  let index := hooks.beforeLoad list.index
  let data := list.data.fill res
  (hooks.afterLoad data index).map fun index => {data := data, loadtime := res.time, index := index}

def loadAll (hooks : Hooks T Index) (list : ObjList T Index) (results : List (BDbResult T)) :
    Option (ObjList T Index) :=
  results.foldlM (load hooks) list

/-- After these loads and one more, the list answers as it should. -/
def AnswersAfter (hooks : Hooks T Index) (Answers : ObjList T Index → Prop) (start : Index)
    (results : List (BDbResult T)) (result : BDbResult T) : Prop :=
  ∃ list, loadAll hooks {index := start} (results ++ [result]) = some list ∧
    list.data.items = result.rows ∧ Answers list

theorem load_some {list next : ObjList T Index} {res : BDbResult T} (loaded : load hooks list res = some next) :
    next.data.items = res.rows ∧
      hooks.afterLoad next.data (hooks.beforeLoad list.index) = some next.index := by
  obtain ⟨index,indexed,rfl⟩ := Option.map_eq_some_iff.mp loaded
  exact ⟨list.data.fill_items res,indexed⟩

theorem load_exists (res : BDbResult T)
    (total : ∀ data index, data.items = res.rows → ∃ next, hooks.afterLoad data index = some next)
    (list : ObjList T Index) : ∃ next, load hooks list res = some next := by
  obtain ⟨next,indexed⟩ := total (list.data.fill res) (hooks.beforeLoad list.index) (list.data.fill_items res)
  exact ⟨_,Option.map_eq_some_iff.mpr ⟨next,indexed,rfl⟩⟩

theorem loadAll_exists (total : ∀ data index, ∃ next, hooks.afterLoad data index = some next)
    (results : List (BDbResult T)) (list : ObjList T Index) :
    ∃ final, loadAll hooks list results = some final := by
  induction results generalizing list with
  | nil => exact ⟨list,rfl⟩
  | cons result results ih =>
    obtain ⟨next,first⟩ := load_exists result (fun data index _ => total data index) list
    obtain ⟨final,rest⟩ := ih next
    exact ⟨final,Option.bind_eq_some_iff.mpr ⟨next,first,rest⟩⟩

theorem answersAfter_iff {Answers : ObjList T Index → Prop} {start : Index} {results : List (BDbResult T)}
    {result : BDbResult T} : AnswersAfter hooks Answers start results result ↔
      ∃ list next, loadAll hooks {index := start} results = some list ∧ load hooks list result = some next ∧
        Answers next := by
  simp only [AnswersAfter,loadAll,List.foldlM_append,List.foldlM_cons,List.foldlM_nil]
  constructor
  · intro answers
    obtain ⟨next,loaded,_,answers⟩ := answers
    obtain ⟨list,before,loaded⟩ := Option.bind_eq_some_iff.mp loaded
    exact ⟨list,next,before,by simpa using loaded,answers⟩
  · intro answers
    obtain ⟨list,next,before,loaded,answers⟩ := answers
    exact ⟨next,Option.bind_eq_some_iff.mpr ⟨list,before,by simpa using loaded⟩,(load_some loaded).1,answers⟩

def Accumulates (hooks : Hooks T Index) (Known : Index → String → Prop) (key : T → String) : Prop :=
  ∀ data index next, hooks.afterLoad data (hooks.beforeLoad index) = some next →
    ∀ uniqueid, Known next uniqueid ↔ Known index uniqueid ∨ ∃ row ∈ data.items, key row = uniqueid

theorem loadAll_known {Known : Index → String → Prop} {key : T → String} (step : Accumulates hooks Known key)
    {list final : ObjList T Index} {results : List (BDbResult T)}
    (loaded : loadAll hooks list results = some final) (u : String) :
    Known final.index u ↔ Known list.index u ∨ ∃ result ∈ results, ∃ row ∈ result.rows, key row = u := by
  induction results generalizing list with
  | nil =>
    cases loaded
    simp
  | cons result results ih =>
    obtain ⟨next,first,rest⟩ := Option.bind_eq_some_iff.mp loaded
    obtain ⟨rows,indexed⟩ := load_some first
    rw [ih rest,step _ _ _ indexed,rows,or_assoc]
    simp

/-- An index that is never cleared answers for the rows that are there exactly when they
have all the keys that ever were. -/
theorem answersAfter_accumulated {Known : Index → String → Prop} {key : T → String}
    (step : Accumulates hooks Known key) (total : ∀ data index, ∃ next, hooks.afterLoad data index = some next)
    {Answers : ObjList T Index → Prop} (answers : ∀ list next time data,
      hooks.afterLoad data (hooks.beforeLoad list) = some next →
        (Answers ⟨data,time,next⟩ ↔ ∀ uniqueid, Known list uniqueid → ∃ row ∈ data.items, key row = uniqueid))
    {start : Index} (fresh : ∀ uniqueid, ¬Known start uniqueid) (results : List (BDbResult T))
    (result : BDbResult T) : AnswersAfter hooks Answers start results result ↔
      ∀ earlier ∈ results, ∀ row ∈ earlier.rows, ∃ other ∈ result.rows, key other = key row := by
  obtain ⟨list,before⟩ := loadAll_exists total results {index := start}
  obtain ⟨next,loaded⟩ := load_exists result (fun data index _ => total data index) list
  obtain ⟨rows,indexed⟩ := load_some loaded
  have known (uniqueid : String) : Known list.index uniqueid ↔
      ∃ earlier ∈ results, ∃ row ∈ earlier.rows, key row = uniqueid := by
    rw [loadAll_known step before,or_iff_right (fresh uniqueid)]
  have only : AnswersAfter hooks Answers start results result ↔ Answers next := by
    rw [answersAfter_iff]
    simp [before,loaded]
  rw [only,answers list.index next.index next.loadtime next.data indexed,rows]
  simp only [known]
  constructor
  · intro all earlier member row inside
    exact all _ ⟨earlier,member,row,inside,rfl⟩
  · intro all uniqueid indexed
    obtain ⟨earlier,member,row,inside,rfl⟩ := indexed
    exact all earlier member row inside

end ObjList

namespace CallLegList

abbrev Records := SortedMap String Pointer

def hooks : Hooks CallLeg Records where
  afterLoad data records :=
    some (data.refs.foldl (fun records cl => records.insert cl.2.uniqueid cl.1) records)

def getByUniqueId (list : ObjList CallLeg Records) (uniqueid : String) : Option Pointer :=
  list.index.find? uniqueid

def Answers (list : ObjList CallLeg Records) : Prop :=
  ∀ uniqueid, getByUniqueId list uniqueid = (list.data.refsOf (·.uniqueid) uniqueid).getLast?

end CallLegList

/-- Only its key is read. -/
structure CallLegOnline where
  uniqueid : String
  deriving Inhabited

namespace CallLegOnlineList

def hooks : Hooks CallLegOnline (Finset String) where
  afterLoad data uniqueid := some (data.items.foldl (fun uniqueid clo => insert clo.uniqueid uniqueid) uniqueid)

def uniqueidCheck (list : ObjList CallLegOnline (Finset String)) (uniqueid : String) : Bool :=
  uniqueid ∈ list.index

def Answers (list : ObjList CallLegOnline (Finset String)) : Prop :=
  ∀ uniqueid, uniqueidCheck list uniqueid = true ↔ ∃ row ∈ list.data.items, row.uniqueid = uniqueid

end CallLegOnlineList

namespace CallLegLinkOnlineList

structure Index where
  uniqueid : Finset String := ∅
  uniqueidOrig : SortedMap String CallLegLinkOnline := .empty
  uniqueidTerm : SortedMap String CallLegLinkOnline := .empty

def insertLink (index : Index) (cll : CallLegLinkOnline) : Index where
  uniqueid := insert cll.uniqueidTerm (insert cll.uniqueidOrig index.uniqueid)
  uniqueidOrig := index.uniqueidOrig.insert cll.uniqueidOrig cll
  uniqueidTerm := index.uniqueidTerm.insert cll.uniqueidTerm cll

def hooks : Hooks CallLegLinkOnline Index where
  beforeLoad index := {index with uniqueid := ∅}
  afterLoad data index := some (data.items.foldl insertLink index)

def uniqueidCheck (list : ObjList CallLegLinkOnline Index) (uniqueid : String) : Bool :=
  uniqueid ∈ list.index.uniqueid

def Answers (list : ObjList CallLegLinkOnline Index) : Prop :=
  ∀ uniqueid, uniqueidCheck list uniqueid = true ↔
    ∃ row ∈ list.data.items, row.uniqueidOrig = uniqueid ∨ row.uniqueidTerm = uniqueid

end CallLegLinkOnlineList

namespace CallLegLinkList

structure Index where
  origRecords : SortedMap String (List Pointer) := .empty
  lastTime : String

/-- `ttt` is what `parseDateTime` finds in a field that a text does not give. -/
def insertLink (ttt : Tm) (index : Index) (cll : Pointer × CallLegLink) : Index where
  lastTime :=
    if parseDateTime ttt index.lastTime < parseDateTime ttt cll.2.linkStartTime then cll.2.linkStartTime
    else index.lastTime
  origRecords :=
    match index.origRecords.find? cll.2.uniqueidOrig with
    | some record => index.origRecords.insert cll.2.uniqueidOrig (record ++ [cll.1])
    | none => index.origRecords.insert cll.2.uniqueidOrig [cll.1]

def hooks (ttt : Tm) : Hooks CallLegLink Index where
  afterLoad data index :=
    data.items.head?.map fun front =>
      data.refs.foldl (insertLink ttt) {index with lastTime := front.linkStartTime}

def getByUniqueIdOrig (list : ObjList CallLegLink Index) (uniqueid : String) : List Pointer :=
  (list.index.origRecords.find? uniqueid).getD []

def Answers (list : ObjList CallLegLink Index) : Prop :=
  ∀ uniqueid, getByUniqueIdOrig list uniqueid = list.data.refsOf (·.uniqueidOrig) uniqueid

end CallLegLinkList

namespace CallLegList

theorem foldl_records (refs : List (Pointer × CallLeg)) (records : Records) (u : String) :
    (refs.foldl (fun records cl => records.insert cl.2.uniqueid cl.1) records).find? u =
      ((refs.filter fun cl => cl.2.uniqueid = u).map (·.1)).getLast?.or (records.find? u) := by
  induction refs generalizing records with
  | nil => simp
  | cons cl refs ih =>
    rw [List.foldl_cons,ih,SortedMap.find?_insert,List.filter_cons]
    by_cases same : cl.2.uniqueid = u
    · have here : u = cl.2.uniqueid := same.symm
      simp only [same,decide_true,if_true,List.map_cons,List.getLast?_cons]
      cases ((refs.filter fun cl => cl.2.uniqueid = u).map (·.1)).getLast? <;> rfl
    · simp [same,Ne.symm same]

theorem afterLoad_find? {data : StdVector CallLeg} {records next : Records}
    (loaded : hooks.afterLoad data records = some next) (u : String) :
    next.find? u = (data.refsOf (·.uniqueid) u).getLast?.or (records.find? u) := by
  cases loaded
  exact foldl_records data.refs records u

def Known (records : Records) (uniqueid : String) : Prop := records.find? uniqueid ≠ none

theorem accumulates : ObjList.Accumulates hooks Known (·.uniqueid) := by
  intro data records next loaded u
  have held := @StdVector.refsOf_nil _ data (·.uniqueid) u
  show next.find? u ≠ none ↔ records.find? u ≠ none ∨ _
  rw [afterLoad_find? loaded,Ne,Option.or_eq_none_iff,List.getLast?_eq_none_iff,held,not_and_or,not_not,or_comm]
  rfl

theorem answers_iff (records next : Records) (time : Int) (data : StdVector CallLeg)
    (loaded : hooks.afterLoad data (hooks.beforeLoad records) = some next) : Answers ⟨data,time,next⟩ ↔
      ∀ uniqueid, Known records uniqueid → ∃ row ∈ data.items, row.uniqueid = uniqueid := by
  refine forall_congr' fun u => ?_
  have held := @StdVector.refsOf_nil _ data (·.uniqueid) u
  show next.find? u = _ ↔ _
  rw [afterLoad_find? loaded]
  cases found : (data.refsOf (·.uniqueid) u).getLast? with
  | none =>
    rw [List.getLast?_eq_none_iff,held] at found
    simp [Known,hooks,found]
  | some pointer =>
    have filled : data.refsOf (·.uniqueid) u ≠ [] := by
      intro empty
      simp [empty] at found
    have present := not_not.mp (mt held.mpr filled)
    exact iff_of_true rfl fun _ => present

end CallLegList

namespace CallLegOnlineList

theorem mem_foldl_insert (rows : List CallLegOnline) (uniqueid : Finset String) (u : String) :
    u ∈ rows.foldl (fun uniqueid clo => insert clo.uniqueid uniqueid) uniqueid ↔
      u ∈ uniqueid ∨ ∃ row ∈ rows, row.uniqueid = u := by
  induction rows generalizing uniqueid with
  | nil => simp
  | cons clo rows ih =>
    rw [List.foldl_cons,ih,Finset.mem_insert]
    simp only [List.exists_mem_cons_iff]
    tauto

def Known (index : Finset String) (uniqueid : String) : Prop := uniqueid ∈ index

theorem accumulates : ObjList.Accumulates hooks Known (·.uniqueid) := by
  intro data index next loaded u
  cases loaded
  exact mem_foldl_insert data.items index u

theorem answers_iff (index next : Finset String) (time : Int) (data : StdVector CallLegOnline)
    (loaded : hooks.afterLoad data (hooks.beforeLoad index) = some next) : Answers ⟨data,time,next⟩ ↔
      ∀ uniqueid, Known index uniqueid → ∃ row ∈ data.items, row.uniqueid = uniqueid := by
  refine forall_congr' fun u => ?_
  have known := accumulates data index next loaded u
  simp only [Known] at known ⊢
  simp only [uniqueidCheck,decide_eq_true_eq,known]
  tauto

end CallLegOnlineList

namespace CallLegLinkOnlineList

theorem mem_foldl_insertLink (rows : List CallLegLinkOnline) (index : Index) (u : String) :
    u ∈ (rows.foldl insertLink index).uniqueid ↔
      u ∈ index.uniqueid ∨ ∃ row ∈ rows, row.uniqueidOrig = u ∨ row.uniqueidTerm = u := by
  induction rows generalizing index with
  | nil => simp
  | cons cll rows ih =>
    rw [List.foldl_cons,ih]
    simp only [insertLink,Finset.mem_insert,List.exists_mem_cons_iff]
    grind

theorem answersAfter (start : Index) (results : List (BDbResult CallLegLinkOnline))
    (result : BDbResult CallLegLinkOnline) : ObjList.AnswersAfter hooks Answers start results result := by
  have total : ∀ data index, ∃ next, hooks.afterLoad data index = some next := fun _ _ => ⟨_,rfl⟩
  obtain ⟨list,before⟩ := ObjList.loadAll_exists total results {index := start}
  obtain ⟨next,loaded⟩ := ObjList.load_exists result (fun data index _ => total data index) list
  obtain ⟨_,indexed⟩ := ObjList.load_some loaded
  refine ObjList.answersAfter_iff.mpr ⟨list,next,before,loaded,?_⟩
  intro u
  have index := Option.some.inj indexed
  simp only [uniqueidCheck,decide_eq_true_eq,← index,mem_foldl_insertLink]
  simp [hooks]

end CallLegLinkOnlineList

namespace CallLegLinkList

theorem foldl_origRecords (ttt : Tm) (refs : List (Pointer × CallLegLink)) (index : Index) (u : String) :
    ((refs.foldl (insertLink ttt) index).origRecords.find? u).getD [] =
      (index.origRecords.find? u).getD [] ++ (refs.filter fun cll => cll.2.uniqueidOrig = u).map (·.1) := by
  induction refs generalizing index with
  | nil => simp
  | cons cll refs ih =>
    have first : ((insertLink ttt index cll).origRecords.find? u).getD [] = (index.origRecords.find? u).getD [] ++
        if cll.2.uniqueidOrig = u then [cll.1] else [] := by
      unfold insertLink
      by_cases same : cll.2.uniqueidOrig = u
      · subst same
        cases index.origRecords.find? cll.2.uniqueidOrig <;> simp
      · cases index.origRecords.find? cll.2.uniqueidOrig <;> simp [same,Ne.symm same]
    rw [List.foldl_cons,ih,first,List.filter_cons]
    by_cases same : cll.2.uniqueidOrig = u <;> simp [same]

theorem afterLoad_records {ttt : Tm} {data : StdVector CallLegLink} {index next : Index}
    (loaded : (hooks ttt).afterLoad data index = some next) (u : String) :
    (next.origRecords.find? u).getD [] =
      (index.origRecords.find? u).getD [] ++ data.refsOf (·.uniqueidOrig) u := by
  obtain ⟨front,_,rfl⟩ := Option.map_eq_some_iff.mp loaded
  exact foldl_origRecords ttt data.refs _ u

def Known (index : Index) (uniqueid : String) : Prop := (index.origRecords.find? uniqueid).getD [] ≠ []

theorem accumulates (ttt : Tm) : ObjList.Accumulates (hooks ttt) Known (·.uniqueidOrig) := by
  intro data index next loaded u
  have held := @StdVector.refsOf_nil _ data (·.uniqueidOrig) u
  have records := afterLoad_records loaded u
  show (next.origRecords.find? u).getD [] ≠ [] ↔ _ 
  rw [records,Ne,List.append_eq_nil_iff,held,not_and_or,not_not]
  rfl

theorem load_filled {ttt : Tm} {list next : ObjList CallLegLink Index} {res : BDbResult CallLegLink}
    (loaded : ObjList.load (hooks ttt) list res = some next) : res.rows ≠ [] := by
  obtain ⟨rows,indexed⟩ := ObjList.load_some loaded
  obtain ⟨front,head,_⟩ := Option.map_eq_some_iff.mp indexed
  rw [rows] at head
  exact List.ne_nil_of_mem (List.mem_of_head? head)

theorem answersAfter_iff (ttt : Tm) (startTime : String) (results : List (BDbResult CallLegLink))
    (result : BDbResult CallLegLink) :
    ObjList.AnswersAfter (hooks ttt) Answers {lastTime := startTime} results result ↔
      results = [] ∧ result.rows ≠ [] := by
  rw [ObjList.answersAfter_iff]
  constructor
  · intro answers
    obtain ⟨list,next,before,loaded,answers⟩ := answers
    refine ⟨?_,load_filled loaded⟩
    cases results with
    | nil => rfl
    | cons earlier results =>
      obtain ⟨_,first,_⟩ := Option.bind_eq_some_iff.mp before
      obtain ⟨row,inside⟩ := List.exists_mem_of_ne_nil _ (load_filled first)
      have known := (ObjList.loadAll_known (accumulates ttt) before row.uniqueidOrig).mpr
        (.inr ⟨earlier,List.mem_cons_self,row,inside,rfl⟩)
      have records := (afterLoad_records (ObjList.load_some loaded).2 row.uniqueidOrig).symm.trans
        (answers row.uniqueidOrig)
      exact absurd (List.append_left_eq_self.mp records) known
  · intro first
    obtain ⟨rfl,filled⟩ := first
    have total : ∀ (data : StdVector CallLegLink) (index : Index), data.items = result.rows →
        ∃ next, (hooks ttt).afterLoad data index = some next := by
      intro data index rows
      obtain ⟨front,rest,same⟩ := List.exists_cons_of_ne_nil filled
      simp [hooks,rows,same]
    obtain ⟨next,loaded⟩ := ObjList.load_exists result total {index := {lastTime := startTime}}
    refine ⟨_,next,rfl,loaded,?_⟩
    intro u
    exact afterLoad_records (ObjList.load_some loaded).2 u

end CallLegLinkList

/-- After which loads each list answers from its rows alone. Only the one that clears its
index before a load always does. -/
theorem lists_answer_iff (ttt : Tm) (startTime : String) :
    (∀ results result, ObjList.AnswersAfter CallLegList.hooks CallLegList.Answers .empty results result ↔
      ∀ earlier ∈ results, ∀ row ∈ earlier.rows, ∃ other ∈ result.rows, other.uniqueid = row.uniqueid) ∧
    (∀ results result, ObjList.AnswersAfter CallLegOnlineList.hooks CallLegOnlineList.Answers ∅ results result ↔
      ∀ earlier ∈ results, ∀ row ∈ earlier.rows, ∃ other ∈ result.rows, other.uniqueid = row.uniqueid) ∧
    (∀ results result,
      ObjList.AnswersAfter CallLegLinkOnlineList.hooks CallLegLinkOnlineList.Answers {} results result) ∧
    ∀ results result, ObjList.AnswersAfter (CallLegLinkList.hooks ttt) CallLegLinkList.Answers
      {lastTime := startTime} results result ↔ results = [] ∧ result.rows ≠ [] :=
  ⟨ObjList.answersAfter_accumulated CallLegList.accumulates (fun _ _ => ⟨_,rfl⟩) CallLegList.answers_iff
      fun _ known => known rfl,
    ObjList.answersAfter_accumulated CallLegOnlineList.accumulates (fun _ _ => ⟨_,rfl⟩)
      CallLegOnlineList.answers_iff fun _ known => Finset.notMem_empty _ known,
    CallLegLinkOnlineList.answersAfter {},CallLegLinkList.answersAfter_iff ttt startTime⟩

theorem stale_leg_and_empty_links :
    ¬ObjList.AnswersAfter CallLegList.hooks CallLegList.Answers .empty [⟨[.row "a" true ""],0,1⟩] ⟨[],60,2⟩ ∧
    ¬ObjList.AnswersAfter (CallLegLinkList.hooks default) CallLegLinkList.Answers {lastTime := ""} [] ⟨[],0,1⟩ := by
  constructor
  · intro answers
    obtain ⟨list,loaded,_,answers⟩ := answers
    cases loaded
    exact absurd (answers "a") (by decide)
  · intro answers
    obtain ⟨list,loaded,_⟩ := answers
    contradiction

end Call45Aggr
