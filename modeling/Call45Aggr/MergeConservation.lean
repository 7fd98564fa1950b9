import Call45Aggr.MergeMatching
import Mathlib.Data.List.Count

/-! Conservation over the merge: every dequeued leg and link is in one place at every
moment, and every originating leg is one record. -/
namespace Call45Aggr
open Library

def CallRecord.birth (record : CallRecord) : String × Int := (record.orig,record.startTime)

def Env.birth (env : Env) (leg : CallLeg) : String × Int := (leg.uniqueid,env.stamp leg.startTime)

def Claim.items (claim : Claim) : List CallLeg :=
  claim.own.values ++ claim.legs.values ++ claim.replaced.map Prod.fst

theorem Claim.take_items (claim : Claim) (link : CallLegLink) :
    (claim.take link).items.Perm claim.items := by
  classical
  unfold take items
  split
  next leg found =>
    have inserted := SortedMap.values_insert claim.own leg.uniqueid leg
    have erased := SortedMap.values_erase found
    refine List.perm_iff_count.mpr fun item => ?_
    have gained := inserted.count_eq item
    have lost := erased.count_eq item
    simp only [List.count_append,List.count_cons,List.map_append,overwritten_fst] at gained lost ⊢
    omega
  next => exact .refl _

theorem Claim.takes_items (links : List CallLegLink) (claim : Claim) :
    (links.foldl take claim).items.Perm claim.items := by
  induction links generalizing claim with
  | nil => exact .refl _
  | cons link links ih => exact (ih (claim.take link)).trans (claim.take_items link)

namespace MergeContainer

def buckets (c : MergeContainer) : List CallLegLink := c.links.values.flatMap Bucket.toList

def recordLinks (c : MergeContainer) : List CallLegLink := c.records.flatMap (·.links)

def recordLegs (c : MergeContainer) : List CallLeg := c.records.flatMap (·.legs.values)

def linkPlaces (c : MergeContainer) : List CallLegLink :=
  c.phase.linksIn ++ c.buckets ++ c.recordLinks ++ c.past.purgedLinks

def legPlaces (c : MergeContainer) : List CallLeg :=
  c.phase.legsIn ++ c.legs.values ++ c.recordLegs ++ c.past.purgedLegs ++
    c.past.replaced.map Prod.fst

def births (env : Env) (c : MergeContainer) : List (String × Int) :=
  c.records.map CallRecord.birth ++ (c.phase.legsIn.filter (·.orig)).map env.birth

structure Conserved (env : Env) (c : MergeContainer) : Prop where
  births : (c.births env).Perm ((c.past.legs.filter (·.orig)).map env.birth)
  links : c.linkPlaces.Perm c.past.links
  legs : c.legPlaces.Perm c.past.legs

theorem buckets_erase (m : SortedMap String Bucket) (key : String) :
    (m.values.flatMap Bucket.toList).Perm
      (((m.find? key).map Bucket.toList).getD [] ++ (m.erase key).values.flatMap Bucket.toList) := by
  cases found : m.find? key with
  | none => simp [SortedMap.erase_absent found]
  | some cll => simpa using (SortedMap.values_erase found).flatMap_right Bucket.toList

theorem addLink_buckets (env : Env) (c : MergeContainer) (link : CallLegLink) :
    (c.addLink env link).buckets.Perm (link :: c.buckets) := by
  classical
  have assigned := (c.links.values_assign link.uniqueidOrig (c.pushed link)).flatMap_right Bucket.toList
  have erased := buckets_erase c.links link.uniqueidOrig
  refine List.perm_iff_count.mpr fun item => ?_
  have gained := assigned.count_eq item
  have split := erased.count_eq item
  simp only [buckets,addLink,List.flatMap_cons,pushed_toList,List.count_append,
    List.count_cons,List.count_nil] at gained split ⊢
  omega

theorem visit_links (c : MergeContainer) (record : CallRecord) :
    ((c.withoutMatched record).buckets ++ (c.matched record).links).Perm
      (c.buckets ++ record.links) := by
  classical
  have erased := buckets_erase c.links record.orig
  refine List.perm_iff_count.mpr fun item => ?_
  have split := erased.count_eq item
  simp only [matched_links,attachLinks_links,buckets,withoutMatched,List.count_append] at split ⊢
  omega

theorem visit_legs (c : MergeContainer) (record : CallRecord) :
    ((c.matched record).legs.values ++ (c.withoutMatched record).legs.values ++
      (c.withoutMatched record).past.replaced.map Prod.fst).Perm
      (record.legs.values ++ c.legs.values ++ c.past.replaced.map Prod.fst) :=
  Claim.takes_items _ _

theorem setStart_conserved (env : Env) (start : Int) : (setStart start).Conserved env := by
  refine ⟨?_,?_,?_⟩
  · simp [setStart,MergeContainer.births,records,held]
  · simp [setStart,linkPlaces,buckets,recordLinks,records,held]
  · simp [setStart,legPlaces,recordLegs,records,held]

theorem step_links {env : Env} {c next : MergeContainer} {action : Action}
    (conserved : c.linkPlaces.Perm c.past.links) (stepped : step env c action = some next) :
    next.linkPlaces.Perm next.past.links := by
  classical
  refine List.perm_iff_count.mpr fun item => ?_
  have before := conserved.count_eq item
  simp only [linkPlaces,buckets,recordLinks,records,held,List.count_append,List.flatMap_append]
    at before ⊢
  cases step_cases stepped with
  | dequeueLegs batch phase bound => simpa [phase] using before
  | nothing phase => simpa [phase] using before
  | dequeueLinks legsIn batch phase bound =>
    simp only [phase,Phase.linksIn,Phase.record,List.count_append,List.count_nil] at before ⊢
    omega
  | addLeg leg legsIn linksIn phase =>
    have born : ((c.addLeg env leg).data.flatMap (·.links)) = c.data.flatMap (·.links) := by
      rw [addLeg_data]
      split <;> simp [CallRecord.ofLeg]
    simpa [phase,born] using before
  | addLink link linksIn phase =>
    have added := (addLink_buckets env c link).count_eq item
    simp only [buckets,List.count_cons] at added
    simp only [phase,Phase.linksIn,Phase.record,List.count_cons,added] at before ⊢
    simp only [MergeContainer.addLink]
    omega
  | regulate phase =>
    simpa [phase,Nat.add_assoc] using before
  | pass save now record rest phase next due =>
    have moved := (visit_links c record).count_eq item
    simp only [buckets,List.count_append] at moved
    simp only [phase,next,Phase.linksIn,Phase.record,List.flatMap_cons,List.flatMap_nil,
      List.count_append,List.count_nil] at before ⊢
    simp only [withoutMatched] at moved ⊢
    omega
  | keep save now record rest phase next early =>
    have moved := (visit_links c record).count_eq item
    simp only [buckets,List.count_append] at moved
    simp only [phase,next,Phase.linksIn,Phase.record,List.flatMap_cons,List.flatMap_nil,
      List.flatMap_append,List.count_append,List.count_nil] at before ⊢
    simp only [withoutMatched] at moved ⊢
    omega
  | enqueue save record phase =>
    simp only [phase,Phase.linksIn,Phase.record,List.flatMap_cons,List.flatMap_nil,
      List.flatMap_append,List.count_append,List.count_nil] at before ⊢
    omega
  | walked save phase done => simpa [phase] using before
  | purgeLeg save now cursor key leg phase next due =>
    simpa [phase] using before
  | keepLeg save now cursor key leg phase next early =>
    simpa [phase] using before
  | purgeLinks save cursor phase done =>
    have split := ((c.links.values_filter (stale env save)).flatMap_right Bucket.toList).count_eq item
    simp only [List.flatMap_append,List.count_append] at split
    simp only [phase,MergeContainer.purgeLinks,Phase.linksIn,Phase.record,List.count_append] at before ⊢
    omega

theorem step_legs {env : Env} {c next : MergeContainer} {action : Action}
    (conserved : c.legPlaces.Perm c.past.legs) (stepped : step env c action = some next) :
    next.legPlaces.Perm next.past.legs := by
  classical
  refine List.perm_iff_count.mpr fun item => ?_
  have before := conserved.count_eq item
  simp only [legPlaces,recordLegs,records,held,List.count_append,List.flatMap_append] at before ⊢
  cases step_cases stepped with
  | dequeueLegs batch phase bound =>
    simp only [phase,Phase.legsIn,Phase.record,List.count_append,List.count_nil] at before ⊢
    omega
  | nothing phase => simpa [phase] using before
  | dequeueLinks legsIn batch phase bound => simpa [phase] using before
  | addLeg leg legsIn linksIn phase =>
    have inserted := (c.legs.values_insert leg.uniqueid leg).count_eq item
    simp only [List.count_append,List.count_cons] at inserted
    simp only [phase,Phase.legsIn,Phase.record,List.flatMap_nil,List.count_cons,List.count_nil]
      at before
    simp only [addLeg_legs,addLeg_data,addLeg_rest,addLeg_output,addLeg_past,Phase.legsIn,Phase.record,
      List.flatMap_append,List.flatMap_nil,List.map_append,List.count_append,List.count_nil]
    cases orig : leg.orig with
    | true =>
      simp only [if_true,List.flatMap_cons,List.flatMap_nil,List.append_nil,CallRecord.ofLeg_legs,
        List.count_cons,List.count_nil,List.map_nil]
      omega
    | false =>
      simp only [Bool.false_eq_true,if_false,List.flatMap_nil,List.count_nil,overwritten_fst]
      omega
  | addLink link linksIn phase =>
    simpa [phase,MergeContainer.addLink] using before
  | regulate phase => simpa [phase,Nat.add_assoc] using before
  | pass save now record rest phase next due =>
    have moved := (visit_legs c record).count_eq item
    simp only [List.count_append] at moved
    simp only [phase,next,Phase.legsIn,Phase.record,List.flatMap_cons,List.flatMap_nil,
      List.count_append,List.count_nil] at before ⊢
    simp only [withoutMatched] at moved ⊢
    omega
  | keep save now record rest phase next early =>
    have moved := (visit_legs c record).count_eq item
    simp only [List.count_append] at moved
    simp only [phase,next,Phase.legsIn,Phase.record,List.flatMap_cons,List.flatMap_nil,
      List.flatMap_append,List.count_append,List.count_nil] at before ⊢
    simp only [withoutMatched] at moved ⊢
    omega
  | enqueue save record phase =>
    simp only [phase,Phase.legsIn,Phase.record,List.flatMap_cons,List.flatMap_nil,
      List.flatMap_append,List.count_append,List.count_nil] at before ⊢
    omega
  | walked save phase done => simpa [phase] using before
  | purgeLeg save now cursor key leg phase next due =>
    have lost := (SortedMap.values_erase (SortedMap.next?_mem next)).count_eq item
    simp only [List.count_cons] at lost
    simp only [phase,Phase.legsIn,Phase.record,List.count_append,List.count_cons,List.count_nil,lost]
      at before ⊢
    omega
  | keepLeg save now cursor key leg phase next early =>
    simpa [phase] using before
  | purgeLinks save cursor phase done =>
    simpa [phase,MergeContainer.purgeLinks] using before

theorem step_births {env : Env} {c next : MergeContainer} {action : Action}
    (conserved : (c.births env).Perm ((c.past.legs.filter (·.orig)).map env.birth))
    (stepped : step env c action = some next) :
    (next.births env).Perm ((next.past.legs.filter (·.orig)).map env.birth) := by
  refine List.perm_iff_count.mpr fun item => ?_
  have before := conserved.count_eq item
  simp only [MergeContainer.births,records,held,List.map_append,List.count_append] at before ⊢
  cases step_cases stepped with
  | dequeueLegs batch phase bound =>
    simp only [phase,Phase.legsIn,Phase.record,List.filter_append,List.map_append,List.count_append,
      List.filter_nil,List.map_nil,List.count_nil] at before ⊢
    omega
  | nothing phase => simpa [phase] using before
  | dequeueLinks legsIn batch phase bound => simpa [phase] using before
  | addLeg leg legsIn linksIn phase =>
    simp only [phase,Phase.legsIn,Phase.record,List.filter_cons,List.map_nil,List.count_nil] at before
    simp only [addLeg_data,addLeg_rest,addLeg_output,addLeg_past,Phase.legsIn,Phase.record,
      List.map_append,List.count_append,List.map_nil,List.count_nil]
    cases orig : leg.orig with
    | true =>
      simp only [orig,if_true,List.map_cons,List.map_nil,List.count_cons,List.count_nil] at before ⊢
      have same : CallRecord.birth (CallRecord.ofLeg leg (env.stamp leg.startTime)) = env.birth leg := rfl
      rw [same]
      omega
    | false => simpa [orig] using before
  | addLink link linksIn phase =>
    simpa [phase,MergeContainer.addLink] using before
  | regulate phase => simpa [phase,Nat.add_assoc] using before
  | pass save now record rest phase next due =>
    have same : CallRecord.birth (c.matched record) = CallRecord.birth record := by
      simp [CallRecord.birth]
    simp only [phase,next,Phase.legsIn,Phase.record,List.map_cons,List.map_nil,List.count_cons,
      List.count_nil,withoutMatched,same] at before ⊢
    omega
  | keep save now record rest phase next early =>
    have same : CallRecord.birth (c.matched record) = CallRecord.birth record := by
      simp [CallRecord.birth]
    simp only [phase,next,Phase.legsIn,Phase.record,List.map_append,List.map_cons,List.map_nil,
      List.count_append,List.count_cons,List.count_nil,withoutMatched,same] at before ⊢
    omega
  | enqueue save record phase =>
    simp only [phase,Phase.legsIn,Phase.record,List.map_append,List.map_cons,List.map_nil,
      List.count_append,List.count_cons,List.count_nil] at before ⊢
    omega
  | walked save phase done => simpa [phase] using before
  | purgeLeg save now cursor key leg phase next due =>
    simpa [phase] using before
  | keepLeg save now cursor key leg phase next early =>
    simpa [phase] using before
  | purgeLinks save cursor phase done =>
    simpa [phase,MergeContainer.purgeLinks] using before

theorem run_conserved {env : Env} {start : Int} {c : MergeContainer}
    (run : Run (step env) Always (setStart start) c) : c.Conserved env :=
  run.invariant (setStart_conserved env start) fun _ _ _ _ conserved _ stepped =>
    ⟨step_births conserved.births stepped,step_links conserved.links stepped,
      step_legs conserved.legs stepped⟩

def Succeeded (dequeued : List CallLeg) (pair : CallLeg × CallLeg) : Prop :=
  pair.1.uniqueid = pair.2.uniqueid ∧ pair.2 ∈ dequeued

theorem takes_succeeded {orig : String} {links : List CallLegLink} {dequeued : List CallLeg}
    (rest : List CallLegLink) (claim : Claim) (formed : claim.Formed orig links)
    (part : ∀ link ∈ rest, link ∈ links) (known : ∀ leg ∈ claim.legs.values, leg ∈ dequeued)
    (earlier : ∀ pair ∈ claim.replaced, Succeeded dequeued pair) :
    ∀ pair ∈ (rest.foldl Claim.take claim).replaced, Succeeded dequeued pair := by
  induction rest generalizing claim with
  | nil => exact earlier
  | cons link rest ih =>
    apply ih (claim.take link) (Claim.take_formed formed link (part link (by simp)))
      (fun other member => part other (by simp [member]))
    · intro leg member
      obtain ⟨key,present⟩ := SortedMap.mem_values.mp member
      unfold Claim.take at present
      split at present
      next =>
        rw [SortedMap.find?_erase] at present
        split_ifs at present
        exact known leg (SortedMap.mem_values.mpr ⟨key,present⟩)
      next => exact known leg (SortedMap.mem_values.mpr ⟨key,present⟩)
    · unfold Claim.take
      split
      next leg found =>
        intro pair member
        rcases List.mem_append.mp member with old | new
        · exact earlier pair old
        · obtain ⟨gone,present,rfl⟩ := List.mem_map.mp new
          have owned : claim.own.find? leg.uniqueid = some gone := by simpa using present
          exact ⟨formed.keyed _ gone owned,known leg (SortedMap.mem_values.mpr ⟨_,found⟩)⟩
      next => exact earlier

theorem step_succeeded {env : Env} {c next : MergeContainer} {action : Action} (shaped : c.Shaped)
    (conserved : c.Conserved env)
    (earlier : ∀ pair ∈ c.past.replaced, Succeeded c.past.legs pair)
    (stepped : step env c action = some next) :
    ∀ pair ∈ next.past.replaced, Succeeded next.past.legs pair := by
  have waiting : ∀ leg ∈ c.legs.values, leg ∈ c.past.legs := fun leg member =>
    conserved.legs.subset (by simp [legPlaces,member])
  have visit (record : CallRecord) (member : record ∈ c.records) :
      ∀ pair ∈ (c.claim record).replaced, Succeeded c.past.legs pair :=
    takes_succeeded _ _ (shaped.keyed.claim_start (shaped.formed record member)) (fun _ own => own)
      waiting earlier
  cases step_cases stepped with
  | dequeueLegs batch phase bound =>
    intro pair member
    exact ⟨(earlier pair member).1,List.mem_append_left _ (earlier pair member).2⟩
  | addLeg leg legsIn linksIn phase =>
    intro pair member
    rw [addLeg_past] at member ⊢
    rcases List.mem_append.mp member with old | new
    · exact earlier pair old
    · split_ifs at new
      · simp at new
      · obtain ⟨gone,present,rfl⟩ := List.mem_map.mp new
        have owned : c.legs.find? leg.uniqueid = some gone := by simpa using present
        refine ⟨(shaped.keyed.leg _ gone owned).1,conserved.legs.subset ?_⟩
        simp [legPlaces,phase]
  | regulate phase => simpa using earlier
  | pass save now record rest phase next due =>
    exact visit record (by simp [records,held,next])
  | keep save now record rest phase next early =>
    exact visit record (by simp [records,held,next])
  | nothing | dequeueLinks | addLink | enqueue | walked | purgeLeg | keepLeg | purgeLinks =>
    exact earlier

theorem run_succeeded {env : Env} {start : Int} {c : MergeContainer}
    (run : Run (step env) Always (setStart start) c) :
    ∀ pair ∈ c.past.replaced, Succeeded c.past.legs pair :=
  run.invariant (by simp [setStart]) fun _ _ _ before earlier _ stepped =>
    step_succeeded (run_shaped before) (run_conserved before) earlier stepped

theorem step_output {env : Env} {c next : MergeContainer} {action : Action}
    (stepped : step env c action = some next) : c.output <+: next.output := by
  cases step_cases stepped with
  | enqueue save record phase => exact List.prefix_append _ _
  | addLeg leg legsIn linksIn phase => simp
  | regulate phase => simp
  | _ => exact List.prefix_refl _

theorem run_output {env : Env} {c later : MergeContainer} (run : Run (step env) Always c later) :
    c.output <+: later.output := by
  induction run with
  | start => exact List.prefix_refl _
  | step _ _ _ _ _ stepped ih => exact ih.trans (step_output stepped)

/-- Every dequeued originating leg is one record, held or emitted for good; every
dequeued link is under its orig, in one record or purged; every other dequeued leg
is waiting, in one record, purged or replaced by a leg of the same uniqueid. -/
theorem conservation (env : Env) (start : Int) (c : MergeContainer)
    (run : Run (step env) Always (setStart start) c) :
    ((c.held.map CallRecord.birth ++ c.output.map CallRecord.birth ++
        (c.phase.legsIn.filter (·.orig)).map env.birth).Perm
      ((c.past.legs.filter (·.orig)).map env.birth) ∧
      ∀ later, Run (step env) Always c later → c.output <+: later.output) ∧
    ((c.phase.linksIn ++ c.links.values.flatMap Bucket.toList ++ c.held.flatMap (·.links) ++
        c.output.flatMap (·.links) ++ c.past.purgedLinks).Perm c.past.links ∧
      ∀ key cll, c.links.find? key = some cll → ∀ link ∈ cll.toList, link.uniqueidOrig = key) ∧
    (((c.phase.legsIn ++ c.legs.values ++ c.held.flatMap (·.legs.values) ++
        c.output.flatMap (·.legs.values) ++ c.past.purgedLegs ++
        c.past.replaced.map Prod.fst).filter (!·.orig)).Perm (c.past.legs.filter (!·.orig)) ∧
      ∀ pair ∈ c.past.replaced, pair.1.uniqueid = pair.2.uniqueid ∧ pair.2 ∈ c.past.legs) := by
  have conserved := run_conserved run
  refine ⟨⟨?_,fun _ after => run_output after⟩,⟨?_,(run_shaped run).keyed.bucket⟩,⟨?_,run_succeeded run⟩⟩
  · simpa [MergeContainer.births,records] using conserved.births
  · simpa [linkPlaces,buckets,recordLinks,records] using conserved.links
  · simpa [legPlaces,recordLegs,records] using conserved.legs.filter (!·.orig)

theorem conservation_oneCall : ∃ c : MergeContainer,
    (c.output.length = 1 ∧ c.held.length = 1 ∧ c.past.links.length = 1) ∧
    (c.phase.linksIn ++ c.links.values.flatMap Bucket.toList ++ c.held.flatMap (·.links) ++
      c.output.flatMap (·.links) ++ c.past.purgedLinks).Perm c.past.links := by
  obtain ⟨c,run,good⟩ := exists_run (step shortCalls) Always (setStart 0)
    (fun c => c.output.length == 1 && c.held.length == 1 && c.past.links.length == 1) oneCall (by decide)
  simp only [Bool.and_eq_true,beq_iff_eq,and_assoc] at good
  exact ⟨c,good,(conservation shortCalls 0 c run).2.1.1⟩

end MergeContainer
end Call45Aggr
