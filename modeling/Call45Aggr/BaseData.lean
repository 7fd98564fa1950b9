import Call45Aggr.Library.Run

/-! `BaseDataImpl::load` and its `LoadingTransaction`. -/
namespace Call45Aggr
open Library

inductive BaseDataState
  | notLoaded
  | loading
  | loaded
  deriving DecidableEq

structure BaseDataImpl (T : Type) where
  state : BaseDataState := .notLoaded
  version : Nat := 0
  totalTimeInMs : Int := 0
  lastLoadingTime : Int := 0
  loadingStart : Int := 0
  data : Option T := none

namespace BaseDataImpl
variable {T : Type}

def ready (object : BaseDataImpl T) : Bool := object.state = .loaded

def startLoading (object : BaseDataImpl T) (now : Int) : BaseDataImpl T :=
  {object with loadingStart := now}

def endLoading (object : BaseDataImpl T) (now : Int) : BaseDataImpl T :=
  {object with
    lastLoadingTime := now - object.loadingStart
    totalTimeInMs := object.totalTimeInMs + (now - object.loadingStart)}

/-- The object, the clock, and the count of versions handed out to all objects, as it would
be if it had no end. `seen` is what others saw of the object. -/
structure System (T : Type) where
  object : BaseDataImpl T := {}
  now : Int
  globalDataVersion : Nat := 1
  seen : List (BaseDataImpl T) := []

namespace System

def fetchDataVersion (s : System T) : Nat × System T :=
  (s.globalDataVersion % 18446744073709551616,{s with globalDataVersion := s.globalDataVersion + 1})

def begun (s : System T) : System T :=
  {s with object := {s.object.startLoading s.now with state := .loading}}

/-- The constructor of the transaction; `none` is the exception. -/
def construct (s : System T) : Option (System T) :=
  if s.object.state = .loading then none else some s.begun

def destruct (s : System T) (newData : Option T) : System T :=
  let object := s.object.endLoading s.now
  match newData with
  | none => {s with object := {object with state := .notLoaded}}
  | some newData =>
    let (version,s) := s.fetchDataVersion
    {s with object := {object with state := .loaded, data := some newData, version := version}}

/-- The list that `T::load` made; `none` if an exception left it. -/
def transaction (s : System T) (load : System T → Option T × System T) : Option T × System T :=
  match s.construct with
  | none => (none,s)
  | some s =>
    let (newData,s) := load s
    (newData,s.destruct newData)

/-- Time goes by, in which others take versions and look at the object. -/
def meanwhile (s : System T) (draws : Nat) (time : Int) : System T :=
  {s with
    now := s.now + time
    globalDataVersion := s.globalDataVersion + draws
    seen := s.seen ++ [s.object]}

end System

/-- What `T::load` does up to its end. A load of the same object may be tried on the way,
its exception caught or not. -/
inductive Body (T : Type)
  | returns (newData : T)
  | throws
  | meanwhile (draws : Nat) (time : Int) (rest : Body T)
  | load (inner : Body T) (caught : Bool) (rest : Body T)

def Body.run : Body T → System T → Option T × System T
  | .returns newData, s => (some newData,s)
  | .throws, s => (none,s)
  | .meanwhile draws time rest, s => rest.run (s.meanwhile draws time)
  | .load inner caught rest, s =>
    match s.transaction inner.run with
    | (some _,s) => rest.run s
    | (none,s) => if caught then rest.run s else (none,s)

def load (body : Body T) (s : System T) : Option T × System T := s.transaction body.run

/-- The object, and the list of the last load that came to its end. -/
structure Loads (T : Type) where
  system : System T
  last : Option T := none

inductive Action (T : Type)
  | load (body : Body T)
  | meanwhile (draws : Nat) (time : Int)

namespace Loads

def step (s : Loads T) : Action T → Option (Loads T)
  | .load body =>
    let (newData,system) := load body s.system
    some {system := system, last := newData.or s.last}
  | .meanwhile draws time => some {s with system := s.system.meanwhile draws time}

end Loads

/-- Nothing but time and versions of others is between the two. -/
structure Waits (s t : System T) : Prop where
  object : t.object = s.object
  seen : ∃ looks, t.seen = s.seen ++ looks ∧ ∀ object ∈ looks, object = s.object
  versions : s.globalDataVersion ≤ t.globalDataVersion

theorem Waits.refl (s : System T) : Waits s s := ⟨rfl,⟨[],by simp⟩,Nat.le_refl _⟩

theorem Waits.trans {s t u : System T} (first : Waits s t) (second : Waits t u) : Waits s u := by
  obtain ⟨before,seen_before,same_before⟩ := first.seen
  obtain ⟨after,seen_after,same_after⟩ := second.seen
  refine ⟨second.object.trans first.object,⟨before ++ after,?_,?_⟩,Nat.le_trans first.versions second.versions⟩
  · rw [seen_after,seen_before,List.append_assoc]
  · intro object member
    rcases List.mem_append.mp member with member | member
    · exact same_before object member
    · exact (same_after object member).trans first.object

theorem waits_meanwhile (s : System T) (draws : Nat) (time : Int) : Waits s (s.meanwhile draws time) :=
  ⟨rfl,⟨[s.object],rfl,by simp⟩,Nat.le_add_right _ _⟩

theorem load_of_loading {s : System T} (loading : s.object.state = .loading) (body : Body T) :
    load body s = (none,s) := by
  simp [load,System.transaction,System.construct,loading]

theorem run_waits (body : Body T) {s : System T} (loading : s.object.state = .loading) :
    Waits s (body.run s).2 := by
  induction body generalizing s with
  | returns => exact .refl s
  | throws => exact .refl s
  | meanwhile draws time rest ih => exact (waits_meanwhile s draws time).trans (ih loading)
  | load inner caught rest _ ih =>
    have thrown : s.transaction inner.run = (none,s) := load_of_loading loading inner
    simp only [Body.run,thrown]
    split
    · exact ih loading
    · exact .refl s

/-- A load of an object at rest: nobody sees other data or another version before it is
over, and only its success brings new ones. -/
structure Transactional (s : System T) (newData : Option T) (t : System T) : Prop where
  seen : ∃ looks, t.seen = s.seen ++ looks ∧
    ∀ object ∈ looks, object.data = s.object.data ∧ object.version = s.object.version
  failed : newData = none →
    t.object.data = s.object.data ∧ t.object.version = s.object.version ∧ t.object.state = .notLoaded
  completed : ∀ rows, newData = some rows →
    t.object.data = some rows ∧ t.object.state = .loaded ∧
      (t.globalDataVersion ≤ 18446744073709551616 → s.object.version < t.object.version)

theorem load_of_rest {s : System T} (idle : s.object.state ≠ .loading) (body : Body T) :
    ∃ newData t, load body s = (newData,t.destruct newData) ∧ Waits s.begun t := by
  refine ⟨(body.run s.begun).1,(body.run s.begun).2,?_,run_waits body rfl⟩
  simp only [load,System.transaction,System.construct,if_neg idle]

theorem load_transactional {s : System T} (idle : s.object.state ≠ .loading)
    (behind : s.object.version < s.globalDataVersion) (body : Body T) :
    Transactional s (load body s).1 (load body s).2 := by
  obtain ⟨newData,t,loaded,waits⟩ := load_of_rest idle body
  obtain ⟨looks,seen,same⟩ := waits.seen
  have object := waits.object
  have versions := waits.versions
  rw [loaded]
  refine ⟨⟨looks,?_,?_⟩,?_,?_⟩
  · cases newData <;> exact seen
  · intro object member
    rw [same object member]
    exact ⟨rfl,rfl⟩
  · intro failed
    cases failed
    simp [System.destruct,endLoading,object,System.begun,startLoading]
  · intro rows completed
    cases completed
    refine ⟨rfl,rfl,?_⟩
    intro small
    simp only [System.destruct,System.fetchDataVersion] at small ⊢
    have drawn : t.globalDataVersion % 18446744073709551616 = t.globalDataVersion := Nat.mod_eq_of_lt small
    rw [drawn]
    exact Nat.lt_of_lt_of_le behind versions

structure AtRest (s : Loads T) : Prop where
  idle : s.system.object.state ≠ .loading
  behind : s.system.object.version < s.system.globalDataVersion
  loaded : s.system.object.ready = true → ∃ rows, s.last = some rows ∧ s.system.object.data = some rows

theorem load_atRest {s : Loads T} (rest : AtRest s) (body : Body T) :
    AtRest {system := (load body s.system).2, last := (load body s.system).1.or s.last} := by
  obtain ⟨newData,t,loaded,waits⟩ := load_of_rest rest.idle body
  have object := waits.object
  have versions := waits.versions
  have behind := Nat.lt_of_lt_of_le rest.behind versions
  rw [loaded]
  cases newData with
  | none =>
    refine ⟨by simp [System.destruct],?_,by simp [System.destruct,ready]⟩
    simpa [System.destruct,endLoading,object,System.begun,startLoading] using behind
  | some rows =>
    refine ⟨by simp [System.destruct],?_,fun _ => ⟨rows,rfl,rfl⟩⟩
    exact Nat.lt_succ_of_le (Nat.mod_le _ _)

theorem run_atRest {now : Int} {s : Loads T} (run : Run Loads.step Always ⟨{now := now},none⟩ s) : AtRest s := by
  refine run.invariant ⟨by simp,by simp,by simp [ready]⟩ ?_
  intro state next action _ rest _ stepped
  cases action with
  | load body =>
    cases stepped
    exact load_atRest rest body
  | meanwhile draws time =>
    cases stepped
    exact ⟨rest.idle,Nat.lt_of_lt_of_le rest.behind (Nat.le_add_right _ _),rest.loaded⟩

/-- In every run a load is a transaction, one tried within another does nothing, and what
is ready is the list of the last load that was completed. -/
theorem loads_transactional {now : Int} {s : Loads T} (run : Run Loads.step Always ⟨{now := now},none⟩ s) :
    (∀ body, Transactional s.system (load body s.system).1 (load body s.system).2) ∧
    (∀ (inner : Body T) (t : System T), t.object.state = .loading → load inner t = (none,t)) ∧
    (s.system.object.ready = true → ∃ rows, s.last = some rows ∧ s.system.object.data = some rows) := by
  have rest := run_atRest run
  exact ⟨load_transactional rest.idle rest.behind,fun inner _ loading => load_of_loading loading inner,rest.loaded⟩

theorem loads_transactional_nested : ∃ s : Loads Nat, s.last = some 5 ∧ s.system.object.state = .notLoaded ∧
    (∀ body, Transactional s.system (load body s.system).1 (load body s.system).2) ∧
    (∀ (inner : Body Nat) (t : System Nat), t.object.state = .loading → load inner t = (none,t)) ∧
    (s.system.object.ready = true → ∃ rows, s.last = some rows ∧ s.system.object.data = some rows) := by
  have run := @run_of_execute (Loads Nat) (Action Nat) Loads.step Always _ ⟨{now := 0},none⟩ _ _ .start
    [.load (.returns 5),.meanwhile 3 60,.load (.load (.returns 6) true (.load (.returns 7) false (.returns 8)))] rfl
  exact ⟨_,rfl,rfl,loads_transactional run⟩

/-- After as many versions as `size_t` has values the next one is zero. -/
theorem version_wraps : ¬∀ s : Loads Nat, Run Loads.step Always ⟨{now := 0},none⟩ s → ∀ body rows,
    (load body s.system).1 = some rows →
      s.system.object.version < (load body s.system).2.object.version := by
  intro increases
  have run := @run_of_execute (Loads Nat) (Action Nat) Loads.step Always _ ⟨{now := 0},none⟩ _ _ .start
    [.meanwhile 18446744073709551615 0] rfl
  have later := increases _ run (.returns 5) 5 rfl
  exact absurd later (by decide)

end BaseDataImpl

end Call45Aggr
