import Call45Aggr.Library.Multimap
import Mathlib.Algebra.Order.Group.Unbundled.Int

/-! The storage of the life span events: the order in which the start and the stop routines run. -/
namespace Call45Aggr
open Library

inductive LifeSpanEvent
  | start
  | initApp
  | initDb
  | stop
  deriving DecidableEq

def LifeSpanEvent.text : LifeSpanEvent → String
  | start => "START"
  | initApp => "INIT_APP"
  | initDb => "INIT_DB"
  | stop => "STOP"

/-- How the call of a routine ends: it returns, or it throws a `std::exception` or something else. -/
inductive Ending
  | returned
  | exception (what : String)
  | unknown

structure LfRoutine (ω : Type) where
  name : String
  routine : ω → ω × Ending

structure LifeSpanStorage (ω : Type) where
  events : LifeSpanEvent → Multimap Int (LfRoutine ω) := fun _ => .empty

/-- The world after the routines that ran, and the errors registered with the health register and the log. -/
structure Applied (ω : Type) where
  world : ω
  ran : List (LfRoutine ω) := []
  errors : List (String × String) := []

namespace LifeSpanStorage
variable {ω : Type}

def addEvent (s : LifeSpanStorage ω) (event : LifeSpanEvent) (priority : Int) (routine : LfRoutine ω) :
    LifeSpanStorage ω where
  events other := if other = event then (s.events event).insert priority routine else s.events other

def errorOf (event : LifeSpanEvent) (name : String) : Ending → List (String × String)
  | .returned => []
  | .exception what => [(name,"life_span_event::" ++ event.text ++ ". Error: " ++ what)]
  | .unknown => [(name,"life_span_event::" ++ event.text ++ ". Unknown exception")]

def applyRoutine (event : LifeSpanEvent) (applied : Applied ω) (p : LfRoutine ω) : Applied ω where
  world := (p.routine applied.world).1
  ran := applied.ran ++ [p]
  errors := applied.errors ++ errorOf event p.name (p.routine applied.world).2

def applyEvent (s : LifeSpanStorage ω) (event : LifeSpanEvent) (world : ω) : Applied ω :=
  (s.events event).values.foldl (applyRoutine event) {world}

end LifeSpanStorage

/-- The arguments of the constructor of `life_span` for a start and a stop routine. -/
structure LifeSpan (ω : Type) where
  priority : Int
  name : String
  startRoutine : ω → ω × Ending
  stopRoutine : ω → ω × Ending

namespace LifeSpan
variable {ω : Type}

def onStart (ls : LifeSpan ω) : LfRoutine ω := ⟨ls.name,ls.startRoutine⟩

def onStop (ls : LifeSpan ω) : LfRoutine ω := ⟨ls.name,ls.stopRoutine⟩

/-- The least `int` has no negation; `none` is the overflow. -/
def register (s : LifeSpanStorage ω) (ls : LifeSpan ω) : Option (LifeSpanStorage ω) :=
  if ls.priority = -2147483648 then none
  else some ((s.addEvent .initApp ls.priority ls.onStart).addEvent .stop (-ls.priority) ls.onStop)

def registerAll (spans : List (LifeSpan ω)) : Option (LifeSpanStorage ω) := spans.foldlM register {}

/-- Each routine runs once, and the stop routines run in the reverse order of the start routines. -/
def Mirrored (spans : List (LifeSpan ω)) : Prop :=
  ∃ (storage : LifeSpanStorage ω) (order : List (LifeSpan ω)), registerAll spans = some storage ∧ order.Perm spans ∧
    (∀ world, (storage.applyEvent .initApp world).ran = order.map onStart) ∧
    ∀ world, (storage.applyEvent .stop world).ran = order.reverse.map onStop

theorem ran_applyEvent (storage : LifeSpanStorage ω) (event : LifeSpanEvent) (world : ω) :
    (storage.applyEvent event world).ran = (storage.events event).values := by
  have folded (routines : List (LfRoutine ω)) (applied : Applied ω) :
      (routines.foldl (LifeSpanStorage.applyRoutine event) applied).ran = applied.ran ++ routines := by
    induction routines generalizing applied with
    | nil => simp
    | cons p routines ih =>
      rw [List.foldl_cons,ih,LifeSpanStorage.applyRoutine,List.append_assoc,List.singleton_append]
  exact folded _ _

theorem registerAll_overflow {spans : List (LifeSpan ω)} {ls : LifeSpan ω} (member : ls ∈ spans)
    (least : ls.priority = -2147483648) (storage : LifeSpanStorage ω) : spans.foldlM register storage = none := by
  induction spans generalizing storage with
  | nil => cases member
  | cons first spans ih =>
    rw [List.foldlM_cons]
    rcases List.mem_cons.mp member with rfl | later
    · simp [register,least]
    · cases register storage first with
      | none => rfl
      | some next => exact ih later next

theorem register_events {s : LifeSpanStorage ω} {ls : LifeSpan ω} (other : ls.priority ≠ -2147483648) :
    ∃ next, register s ls = some next ∧ next.events .initApp = (s.events .initApp).insert ls.priority ls.onStart ∧
      next.events .stop = (s.events .stop).insert (-ls.priority) ls.onStop :=
  ⟨_,if_neg other,rfl,rfl⟩

theorem registerAll_events {spans : List (LifeSpan ω)} (others : ∀ ls ∈ spans, ls.priority ≠ -2147483648)
    (s : LifeSpanStorage ω) : ∃ storage, spans.foldlM register s = some storage ∧
      storage.events .initApp = (s.events .initApp).insertAll (spans.map fun ls => (ls.priority,ls.onStart)) ∧
      storage.events .stop = (s.events .stop).insertAll (spans.map fun ls => (-ls.priority,ls.onStop)) := by
  induction spans generalizing s with
  | nil => exact ⟨s,rfl,rfl,rfl⟩
  | cons ls spans ih =>
    obtain ⟨first,others⟩ := List.forall_mem_cons.mp others
    obtain ⟨next,registered,started,stopped⟩ := @register_events ω s ls first
    obtain ⟨storage,rest,starts,stops⟩ := ih others next
    refine ⟨storage,?_,?_,?_⟩
    · rw [List.foldlM_cons,registered]
      exact rest
    · rw [starts,started]
      rfl
    · rw [stops,stopped]
      rfl

theorem arranged_negated {spans : List (LifeSpan ω)} (distinct : spans.Nodup) :
    Multimap.arranged (fun ls => -ls.priority) spans = (Multimap.arranged (·.priority) spans).reverse ↔
      (spans.map (·.priority)).Nodup :=
  Multimap.arranged_reversed (f := fun n : Int => -n) (fun _ _ less => Int.neg_lt_neg less) (·.priority) distinct

theorem ran_registered {spans : List (LifeSpan ω)} (others : ∀ ls ∈ spans, ls.priority ≠ -2147483648) :
    ∃ storage, registerAll spans = some storage ∧
      (∀ world, (storage.applyEvent .initApp world).ran = (Multimap.arranged (·.priority) spans).map onStart) ∧
      ∀ world, (storage.applyEvent .stop world).ran = (Multimap.arranged (fun ls => -ls.priority) spans).map onStop := by
  obtain ⟨storage,registered,starts,stops⟩ := registerAll_events others {}
  refine ⟨storage,registered,fun world => ?_,fun world => ?_⟩
  · rw [ran_applyEvent,starts]
    exact Multimap.values_insertAll (fun ls => ls.priority) onStart spans
  · rw [ran_applyEvent,stops]
    exact Multimap.values_insertAll (fun ls => -ls.priority) onStop spans

/-- Registrations whose routines do nothing and are told apart by their names. -/
def numbered (priorities : List Int) : List (LifeSpan Unit) :=
  priorities.zipIdx.map fun p =>
    ⟨p.1,String.ofList (List.replicate p.2 'a'),fun _ => ((),.returned),fun _ => ((),.returned)⟩

/-- The registration that a routine of one of them is from. -/
def ofRoutine (priorities : List Int) (p : LfRoutine Unit) : LifeSpan Unit :=
  ⟨priorities.getD p.name.length 0,p.name,fun _ => ((),.returned),fun _ => ((),.returned)⟩

theorem numbered_priorities (priorities : List Int) : (numbered priorities).map (·.priority) = priorities := by
  rw [numbered,List.map_map]
  exact List.zipIdx_map_fst 0 priorities

theorem numbered_nodup (priorities : List Int) : (numbered priorities).Nodup := by
  refine List.Nodup.of_map (fun ls => ls.name.length) ?_
  have numbers : (numbered priorities).map (fun ls => ls.name.length) = List.range' 0 priorities.length := by
    rw [numbered,List.map_map,← List.zipIdx_map_snd 0 priorities]
    refine List.map_congr_left fun p _ => ?_
    simp
  rw [numbers]
  exact List.nodup_range'

theorem ofRoutine_numbered {priorities : List Int} {ls : LifeSpan Unit} (member : ls ∈ numbered priorities) :
    ofRoutine priorities ls.onStart = ls ∧ ofRoutine priorities ls.onStop = ls := by
  obtain ⟨⟨priority,place⟩,inside,rfl⟩ := List.mem_map.mp member
  have found : priorities[place]? = some priority := by simpa using List.mem_zipIdx_iff_getElem?.mp inside
  simp [ofRoutine,onStart,onStop,found]

/-- Which registrations ran, and in which order, is known from the routines. -/
theorem map_ofRoutine {priorities : List Int} {items : List (LifeSpan Unit)} (part : items.Perm (numbered priorities)) :
    (items.map onStart).map (ofRoutine priorities) = items ∧ (items.map onStop).map (ofRoutine priorities) = items := by
  have inside (ls : LifeSpan Unit) (member : ls ∈ items) := ofRoutine_numbered (part.mem_iff.mp member)
  refine ⟨?_,?_⟩
  · rw [List.map_map]
    exact (List.map_congr_left fun ls member => (inside ls member).1).trans (List.map_id items)
  · rw [List.map_map]
    exact (List.map_congr_left fun ls member => (inside ls member).2).trans (List.map_id items)

theorem distinct_of_mirrored {priorities : List Int} (mirrored : Mirrored (numbered priorities)) :
    priorities.Nodup ∧ ∀ priority ∈ priorities, priority ≠ -2147483648 := by
  obtain ⟨storage,order,registered,perm,starts,stops⟩ := mirrored
  have others : ∀ ls ∈ numbered priorities, ls.priority ≠ -2147483648 := by
    intro ls member least
    rw [registerAll,registerAll_overflow member least] at registered
    cases registered
  obtain ⟨storage',same,ran,ran'⟩ := ran_registered others
  cases Option.some.inj (registered.symm.trans same)
  have first : order = Multimap.arranged (·.priority) (numbered priorities) := by
    rw [← (map_ofRoutine perm).1,← (map_ofRoutine (Multimap.arranged_perm _ _)).1,← starts (),ran ()]
  have second : order.reverse = Multimap.arranged (fun ls => -ls.priority) (numbered priorities) := by
    rw [← (map_ofRoutine ((List.reverse_perm order).trans perm)).2,← (map_ofRoutine (Multimap.arranged_perm _ _)).2,
      ← stops (),ran' ()]
  rw [first] at second
  have distinct := (arranged_negated (numbered_nodup priorities)).mp second.symm
  rw [numbered_priorities] at distinct
  refine ⟨distinct,fun priority member => ?_⟩
  rw [← numbered_priorities priorities] at member
  obtain ⟨ls,there,rfl⟩ := List.mem_map.mp member
  exact others ls there

/-- The stop routines mirror the start routines, whatever they are, exactly if no two priorities are equal and each has
a negation. -/
theorem mirrored_iff (priorities : List Int) :
    (∀ (ω : Type) (spans : List (LifeSpan ω)), spans.map (·.priority) = priorities → Mirrored spans) ↔
      priorities.Nodup ∧ ∀ priority ∈ priorities, priority ≠ -2147483648 := by
  constructor
  · intro mirrored
    exact distinct_of_mirrored (mirrored Unit _ (numbered_priorities priorities))
  · rintro ⟨distinct,others⟩ ω spans rfl
    obtain ⟨storage,registered,starts,stops⟩ := ran_registered fun ls member => others _ (List.mem_map_of_mem member)
    have reversed := (arranged_negated distinct.of_map).mpr distinct
    refine ⟨storage,_,registered,Multimap.arranged_perm _ spans,starts,fun world => ?_⟩
    rw [stops,reversed]

/-- Of two registrations with one priority the first is both started and stopped first. -/
theorem equal_priorities : ¬∀ (ω : Type) (spans : List (LifeSpan ω)),
    (∀ ls ∈ spans, -2147483648 ≤ ls.priority ∧ ls.priority < 2147483648) → Mirrored spans := by
  intro mirrored
  exact absurd (distinct_of_mirrored (mirrored Unit (numbered [0,0]) (by decide))).1 (by decide)

end LifeSpan
end Call45Aggr
