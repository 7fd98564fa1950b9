import Call45Aggr.MergeContainer

/-! The purge of outdated links at the end of an iteration, link by link. -/
namespace Call45Aggr
open Library

/-- The merging thread, and every link its purge removed with the `recordSaveTime` of
that iteration. -/
structure Purging where
  merge : MergeContainer
  discarded : List (CallLegLink × Int) := []

namespace Purging
open MergeContainer

def removed (c next : MergeContainer) : List CallLegLink :=
  (c.links.filter fun entry => (next.links.find? entry.1).isNone).values.flatMap Bucket.toList

def step (env : Env) (s : Purging) (action : Action) : Option Purging :=
  (s.merge.step env action).map fun next => {
    merge := next
    discarded :=
      match s.merge.phase with
      | .purge save _ => s.discarded ++ (removed s.merge next).map (·,save)
      | _ => s.discarded}

def setStart (start : Int) : Purging := {merge := MergeContainer.setStart start}

/-- No link of the vector is outdated, or all are. -/
def Uniform (env : Env) (save : Int) (cll : Bucket) : Prop :=
  env.stamp cll.front.linkStartTime < save →
    ∀ link ∈ cll.back, env.stamp link.linkStartTime < save

/-- When the purge runs, no vector it is about to remove holds a later link that is
not outdated. -/
def UniformAt (env : Env) (s : Purging) : Action → Prop
  | .work =>
    match s.merge.phase with
    | .purge save _ => ∀ cll ∈ s.merge.links.values, Uniform env save cll
    | _ => True
  | _ => True

instance (env : Env) (s : Purging) (action : Action) : Decidable (UniformAt env s action) := by
  unfold UniformAt Uniform
  split
  · split <;> infer_instance
  · infer_instance

/-- Every discarded link was outdated itself. -/
def StaleOnly (env : Env) (s : Purging) : Prop :=
  ∀ discard ∈ s.discarded, env.stamp discard.1.linkStartTime < discard.2

theorem removed_same {c next : MergeContainer} (same : next.links = c.links) : removed c next = [] := by
  have none : c.links.filter (fun entry => (next.links.find? entry.1).isNone) = .empty := by
    ext key cll
    simp only [SortedMap.find?_filter,same,SortedMap.find?_empty]
    constructor
    · intro both
      simp [both.1] at both
    · intro impossible
      contradiction
  simp [removed,none]

theorem removed_purgeLinks (env : Env) (save : Int) (c : MergeContainer) :
    removed c (c.purgeLinks env save) =
      (c.links.filter (stale env save)).values.flatMap Bucket.toList := by
  have same : c.links.filter (fun entry => ((c.purgeLinks env save).links.find? entry.1).isNone) =
      c.links.filter (stale env save) := by
    ext key cll
    simp only [SortedMap.find?_filter]
    refine and_congr_right fun found => ?_
    rw [find?_purgeLinks env save found]
    cases outdated : stale env save (key,cll) <;> simp
  rw [removed,same]

theorem purge_stale_iff (env : Env) (save : Int) (c : MergeContainer) :
    (∀ link ∈ removed c (c.purgeLinks env save), env.stamp link.linkStartTime < save) ↔
      ∀ cll ∈ c.links.values, Uniform env save cll := by
  rw [removed_purgeLinks]
  constructor
  · intro outdated cll present first link member
    obtain ⟨key,found⟩ := SortedMap.mem_values.mp present
    refine outdated link (List.mem_flatMap.mpr ⟨cll,?_,by simp [Bucket.toList,member]⟩)
    exact SortedMap.mem_values.mpr ⟨key,SortedMap.find?_filter.mpr ⟨found,by simpa [stale] using first⟩⟩
  · intro uniform link member
    obtain ⟨cll,present,inside⟩ := List.mem_flatMap.mp member
    obtain ⟨key,found⟩ := SortedMap.mem_values.mp present
    obtain ⟨was,outdated⟩ := SortedMap.find?_filter.mp found
    have first : env.stamp cll.front.linkStartTime < save := by simpa [stale] using outdated
    rcases List.mem_cons.mp inside with rfl | later
    · exact first
    · exact uniform cll (SortedMap.mem_values.mpr ⟨key,was⟩) first link later

theorem staleOnly_append (env : Env) (s : Purging) (next : MergeContainer) (links : List CallLegLink)
    (save : Int) : StaleOnly env ⟨next,s.discarded ++ links.map (·,save)⟩ ↔
      StaleOnly env s ∧ ∀ link ∈ links, env.stamp link.linkStartTime < save := by
  simp only [StaleOnly,List.mem_append,List.mem_map]
  constructor
  · intro all
    exact ⟨fun discard old => all discard (.inl old),
      fun link member => all (link,save) (.inr ⟨link,member,rfl⟩)⟩
  · intro ⟨before,now⟩ discard either
    rcases either with old | ⟨link,member,rfl⟩
    · exact before discard old
    · exact now link member

theorem step_staleOnly {env : Env} {s next : Purging} {action : Action}
    (stepped : s.step env action = some next) :
    StaleOnly env next ↔ StaleOnly env s ∧ UniformAt env s action := by
  obtain ⟨c,moved,rfl⟩ := Option.map_eq_some_iff.mp stepped
  cases step_cases moved with
  | purgeLinks save cursor phase done =>
    simp only [phase,UniformAt]
    rw [staleOnly_append]
    exact and_congr_right fun _ => purge_stale_iff env save s.merge
  | purgeLeg save now cursor key leg phase
  | keepLeg save now cursor key leg phase => simp [phase,StaleOnly,UniformAt,removed_same]
  | dequeueLegs _ phase | nothing phase | dequeueLinks _ _ phase | addLeg _ _ _ phase
  | addLink _ _ phase | regulate phase | pass _ _ _ _ phase | keep _ _ _ _ phase
  | enqueue _ _ phase | walked _ phase => simp [phase,StaleOnly,UniformAt]

/-- The purge discards only outdated links exactly in the runs in which it never finds
a vector with an outdated first link and a later link that is not. -/
theorem discards_stale_iff (env : Env) (start : Int) (actions : List Action) (s : Purging)
    (ran : execute (step env) Always actions (setStart start) = some s) :
    StaleOnly env s ↔ execute (step env) (UniformAt env) actions (setStart start) = some s := by
  have first : StaleOnly env (setStart start) := by simp [StaleOnly,setStart]
  have exactly : StaleOnly env s ↔ StaleOnly env (setStart start) ∧
      execute (step env) (UniformAt env) actions (setStart start) = some s :=
    execute_iff (fun _ _ _ _ stepped => step_staleOnly stepped) .start actions ran
  simpa [first] using exactly

def purgedPair (first second : String) : List Action :=
  [.dequeueLegs [.row "m" true "1970-01-01 00:01:40"],
    .dequeueLinks [.row "a" "t" first,.row "a" "u" second],
    .work,.work,.work,.work,.getTime 1000,.work,.work]

theorem discards_stale_iff_outdatedPair :
    ∃ s : Purging, s.discarded.length = 2 ∧ StaleOnly shortCalls s := by
  obtain ⟨s,ran,good⟩ := (Option.any_eq_true _ _).mp
    (by decide : (execute (step shortCalls) (UniformAt shortCalls)
      (purgedPair "1970-01-01 00:00:05" "1970-01-01 00:00:06") (setStart 0)).any
        (fun s => s.discarded.length == 2) = true)
  exact ⟨s,by simpa using good,(discards_stale_iff shortCalls 0 _ s (execute_always _ ran)).mpr ran⟩

theorem fresh_link_purged : ¬∀ (env : Env) (start : Int) (s : Purging),
    Run (step env) Always (setStart start) s → StaleOnly env s := by
  intro stale
  obtain ⟨s,run,good⟩ := exists_run (step shortCalls) Always (setStart 0)
    (fun s => s.discarded.any fun discard =>
      !decide (shortCalls.stamp discard.1.linkStartTime < discard.2))
    (purgedPair "1970-01-01 00:00:05" "1970-01-01 00:01:35") (by decide)
  obtain ⟨discard,member,fresh⟩ := List.any_eq_true.mp good
  simp [stale shortCalls 0 s run discard member] at fresh

end Purging
end Call45Aggr
