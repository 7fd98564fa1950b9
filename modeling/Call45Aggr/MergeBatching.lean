import Call45Aggr.MergeConservation

/-! Whether the way the two streams are cut into batches shows in the merged records.
A leg that links of several calls name goes to the first of these calls that looks for
it, so the cut shows where the two streams disagree about which call is first. -/
namespace Call45Aggr
open Library

def callers (legs : List CallLeg) : List String := (legs.filter (·.orig)).map (·.uniqueid)

/-- Which of the calls have a link that names the leg, in link order. -/
def claimants (calls : List String) (links : List CallLegLink) (key : String) : List String :=
  (links.filter fun link => link.uniqueidTerm = key ∧ link.uniqueidOrig ∈ calls).map (·.uniqueidOrig)

def firstByLink (legs : List CallLeg) (links : List CallLegLink) (key : String) : Option String :=
  (claimants (callers legs) links key).head?

def firstByLeg (legs : List CallLeg) (links : List CallLegLink) (key : String) : Option String :=
  (callers legs).find? (· ∈ claimants (callers legs) links key)

/-- Of the calls that claim one leg, the first in the leg stream is the first in the
link stream. -/
def FirstClaimsAgree (legs : List CallLeg) (links : List CallLegLink) : Prop :=
  ∀ leg ∈ legs, leg.orig = false →
    firstByLink legs links leg.uniqueid = firstByLeg legs links leg.uniqueid

instance (legs : List CallLeg) (links : List CallLegLink) : Decidable (FirstClaimsAgree legs links) :=
  inferInstanceAs (Decidable (∀ _ ∈ _, _ → _))

theorem callers_append (legs more : List CallLeg) :
    callers (legs ++ more) = callers legs ++ callers more := by
  simp [callers]

theorem claimants_append (calls : List String) (links more : List CallLegLink) (key : String) :
    claimants calls (links ++ more) key = claimants calls links key ++ claimants calls more key := by
  simp [claimants]

theorem mem_claimants {calls : List String} {links : List CallLegLink} {key call : String} :
    call ∈ claimants calls links key ↔
      call ∈ calls ∧ ∃ link ∈ links, link.uniqueidTerm = key ∧ link.uniqueidOrig = call := by
  simp only [claimants,List.mem_map,List.mem_filter,decide_eq_true_eq]
  constructor
  · intro claims
    obtain ⟨link,⟨member,names,known⟩,rfl⟩ := claims
    exact ⟨known,link,member,names,rfl⟩
  · intro claims
    obtain ⟨known,link,member,names,rfl⟩ := claims
    exact ⟨link,⟨member,names,known⟩,rfl⟩

theorem callers_initial {legs all : List CallLeg} (part : legs <+: all) : callers legs <+: callers all := by
  obtain ⟨more,rfl⟩ := part
  exact ⟨callers more,(callers_append legs more).symm⟩

theorem filter_of_distinct {records : List CallRecord} {record : CallRecord}
    (distinct : (records.map (·.orig)).Nodup) (member : record ∈ records) :
    records.filter (·.orig = record.orig) = [record] := by
  obtain ⟨before,after,rfl⟩ := List.append_of_mem member
  rw [List.map_append,List.map_cons,List.nodup_append] at distinct
  obtain ⟨_,right,apart⟩ := distinct
  have none_before : before.filter (·.orig = record.orig) = [] := by
    refine List.filter_eq_nil_iff.mpr fun other there same => ?_
    exact apart _ (List.mem_map_of_mem there) _ List.mem_cons_self (of_decide_eq_true same)
  have none_after : after.filter (·.orig = record.orig) = [] := by
    refine List.filter_eq_nil_iff.mpr fun other there same => ?_
    exact (List.nodup_cons.mp right).1 (of_decide_eq_true same ▸ List.mem_map_of_mem there)
  simp [none_before,none_after]

theorem find?_at_or_before {α : Type} (test : α → Bool) (before after : List α) {item : α}
    (passes : test item = true) :
    ∃ first, (before ++ item :: after).find? test = some first ∧ (first = item ∨ first ∈ before) := by
  rw [List.find?_append,List.find?_cons_of_pos passes]
  cases early : before.find? test with
  | none => exact ⟨item,rfl,.inl rfl⟩
  | some first => exact ⟨first,rfl,.inr (List.mem_of_find?_eq_some early)⟩

theorem first_of_agree {allLegs legs : List CallLeg} {allLinks links : List CallLegLink}
    (agree : FirstClaimsAgree allLegs allLinks) (legPart : legs <+: allLegs)
    (linkPart : links <+: allLinks) {leg : CallLeg} {key call : String} {before after : List String}
    (known : leg ∈ legs) (term : leg.orig = false) (keyed : leg.uniqueid = key)
    (calls : callers legs = before ++ call :: after)
    (claims : call ∈ claimants (callers allLegs) links key) :
    ∃ first, firstByLeg allLegs allLinks key = some first ∧
      first ∈ claimants (callers allLegs) links key ∧ (first = call ∨ first ∈ before) := by
  obtain ⟨moreLinks,rfl⟩ := linkPart
  obtain ⟨more,all⟩ := callers_initial legPart
  have passes : call ∈ claimants (callers allLegs) (links ++ moreLinks) key := by
    rw [claimants_append]
    exact List.mem_append_left _ claims
  obtain ⟨first,found,place⟩ := find?_at_or_before
    (· ∈ claimants (callers allLegs) (links ++ moreLinks) key) before (after ++ more)
    (decide_eq_true passes)
  have byLeg : firstByLeg allLegs (links ++ moreLinks) key = some first := by
    rw [firstByLeg,← found,← all,calls,List.append_assoc,List.cons_append]
  refine ⟨first,byLeg,?_,place⟩
  obtain ⟨head,others,split⟩ := List.exists_cons_of_ne_nil (List.ne_nil_of_mem claims)
  have byLink := agree leg (legPart.subset known) term
  rw [keyed,byLeg,firstByLink,claimants_append,split] at byLink
  cases Option.some.inj byLink
  simp [split]

theorem Claim.takes_own {orig : String} {all : List CallLegLink} (links : List CallLegLink)
    (claim : Claim) (formed : claim.Formed orig all) (part : ∀ link ∈ links, link ∈ all)
    {key : String} {leg : CallLeg} (owned : (links.foldl take claim).own.find? key = some leg) :
    claim.own.find? key = some leg ∨
      claim.legs.find? key = some leg ∧ ∃ link ∈ links, link.uniqueidTerm = key := by
  induction links generalizing claim with
  | nil => exact .inl owned
  | cons link links ih =>
    have later := ih (claim.take link) (take_formed formed link (part link (by simp)))
      (fun other member => part other (by simp [member])) owned
    unfold take at later
    split at later
    next taken found =>
      have named := (formed.waiting _ _ found).1
      simp only [SortedMap.find?_insert,SortedMap.find?_erase] at later
      rcases later with own | ⟨waiting,other,member,names⟩
      · split_ifs at own with same
        · cases Option.some.inj own
          rw [same,named]
          exact .inr ⟨found,link,by simp,rfl⟩
        · exact .inl own
      · split_ifs at waiting
        exact .inr ⟨waiting,other,by simp [member],names⟩
    next =>
      rcases later with own | ⟨waiting,other,member,names⟩
      · exact .inl own
      · exact .inr ⟨waiting,other,by simp [member],names⟩

theorem Claim.takes_replaced {orig : String} {all : List CallLegLink} (links : List CallLegLink)
    (claim : Claim) (formed : claim.Formed orig all) (part : ∀ link ∈ links, link ∈ all)
    (distinct : (claim.items.map (·.uniqueid)).Nodup) :
    (links.foldl take claim).replaced = claim.replaced := by
  induction links generalizing claim with
  | nil => rfl
  | cons link links ih =>
    have later := ih (claim.take link) (take_formed formed link (part link (by simp)))
      (fun other member => part other (by simp [member]))
      (((claim.take_items link).map _).nodup_iff.mpr distinct)
    rw [List.foldl_cons,later]
    unfold take
    split
    next leg found =>
      cases present : claim.own.find? leg.uniqueid with
      | none => simp [overwritten]
      | some old =>
        exfalso
        have same := formed.keyed _ old present
        simp only [items,List.map_append,List.nodup_append] at distinct
        exact distinct.1.2.2 old.uniqueid
          (List.mem_map_of_mem (SortedMap.mem_values.mpr ⟨_,present⟩)) leg.uniqueid
          (List.mem_map_of_mem (SortedMap.mem_values.mpr ⟨_,found⟩)) same
    next => rfl

namespace MergeContainer

structure Untouched (c : MergeContainer) : Prop where
  output : c.output = []
  purgedLegs : c.past.purgedLegs = []
  purgedLinks : c.past.purgedLinks = []

structure Consumed (legs : List CallLeg) (links : List CallLegLink) (c : MergeContainer) : Prop where
  idle : c.phase.idle = true
  legs : c.past.legs = legs
  links : c.past.links = links

theorem step_untouched {env : Env} {c next : MergeContainer} {action : Action}
    (untouched : next.Untouched) (stepped : step env c action = some next) : c.Untouched := by
  obtain ⟨output,purgedLegs,purgedLinks⟩ := untouched
  cases step_cases stepped with
  | addLeg leg legsIn linksIn phase =>
    exact ⟨by simpa using output,by simpa using purgedLegs,by simpa using purgedLinks⟩
  | regulate phase =>
    exact ⟨by simpa using output,by simpa using purgedLegs,by simpa using purgedLinks⟩
  | enqueue save record phase => simp at output
  | purgeLeg save now cursor key leg phase next due => simp at purgedLegs
  | purgeLinks save cursor phase done =>
    exact ⟨output,purgedLegs,(List.append_eq_nil_iff.mp purgedLinks).1⟩
  | dequeueLegs | nothing | dequeueLinks | addLink | pass | keep | walked | keepLeg =>
    exact ⟨output,purgedLegs,purgedLinks⟩

def waiting (links : SortedMap String Bucket) (key : String) : List CallLegLink :=
  ((links.find? key).map Bucket.toList).getD []

theorem purgeLinks_untouched {env : Env} {save : Int} {c : MergeContainer}
    (none : (c.purgeLinks env save).past.purgedLinks = []) : (c.purgeLinks env save).links = c.links := by
  have gone : (c.links.filter (stale env save)).values.flatMap Bucket.toList = [] :=
    (List.append_eq_nil_iff.mp none).2
  ext key cll
  refine SortedMap.find?_filter.trans ⟨And.left,fun present => ⟨present,?_⟩⟩
  cases old : stale env save (key,cll) with
  | false => rfl
  | true =>
    have member : cll ∈ (c.links.filter (stale env save)).values :=
      SortedMap.mem_values.mpr ⟨key,SortedMap.find?_filter.mpr ⟨present,old⟩⟩
    exact absurd (List.flatMap_eq_nil_iff.mp gone cll member) (by simp [Bucket.toList])

/-- The order of the streams is kept: the records stand in the order of their legs, and
the links of one call, attached or waiting, in the order of the link stream. -/
structure Filed (env : Env) (c : MergeContainer) : Prop where
  births : c.held.map CallRecord.birth ++ (c.phase.legsIn.filter (·.orig)).map env.birth =
    (c.past.legs.filter (·.orig)).map env.birth
  links : ∀ key, (c.held.filter (·.orig = key)).flatMap (·.links) ++ waiting c.links key ++
    c.phase.linksIn.filter (·.uniqueidOrig = key) = c.past.links.filter (·.uniqueidOrig = key)

theorem Filed.callers {env : Env} {c : MergeContainer} (filed : c.Filed env) :
    c.held.map (·.orig) ++ callers c.phase.legsIn = callers c.past.legs := by
  have firsts := congrArg (List.map Prod.fst) filed.births
  simpa [Call45Aggr.callers,CallRecord.birth,Env.birth,Function.comp_def] using firsts

theorem Filed.distinct {env : Env} {c : MergeContainer} (filed : c.Filed env)
    (distinct : (c.past.legs.map (·.uniqueid)).Nodup) : (c.held.map (·.orig)).Nodup := by
  have calls : (Call45Aggr.callers c.past.legs).Nodup :=
    distinct.sublist (List.filter_sublist.map _)
  rw [← filed.callers] at calls
  exact calls.of_append_left

theorem waiting_erase (links : SortedMap String Bucket) (orig key : String) :
    waiting (links.erase orig) key = if key = orig then [] else waiting links key := by
  unfold waiting
  rw [SortedMap.find?_erase]
  split_ifs <;> rfl

theorem visit_filed (c : MergeContainer) (record : CallRecord) (before after : List CallRecord)
    (distinct : ((before ++ record :: after).map (·.orig)).Nodup) (key : String) :
    ((before ++ c.matched record :: after).filter (·.orig = key)).flatMap (·.links) ++
        waiting (c.withoutMatched record).links key =
      ((before ++ record :: after).filter (·.orig = key)).flatMap (·.links) ++ waiting c.links key := by
  rw [withoutMatched,waiting_erase]
  by_cases own : record.orig = key
  · have alone : after.filter (·.orig = key) = [] := by
      refine List.filter_eq_nil_iff.mpr fun other member same => ?_
      rw [List.map_append,List.map_cons] at distinct
      have fresh := (List.nodup_cons.mp distinct.of_append_right).1
      exact fresh (own.trans (of_decide_eq_true same).symm ▸ List.mem_map_of_mem member)
    simp [List.filter_append,own,alone,matched_links,attachLinks_links,waiting]
  · simp [List.filter_append,own,Ne.symm own]

theorem Filed.visit {env : Env} {c : MergeContainer} (filed : c.Filed env)
    (distinct : (c.past.legs.map (·.uniqueid)).Nodup) {save : Int} {record : CallRecord}
    {rest : List CallRecord} (phase : c.phase = .walk save) (next : c.rest = record :: rest) (key : String) :
    ((c.data ++ c.matched record :: rest).filter (·.orig = key)).flatMap (·.links) ++
      waiting (c.withoutMatched record).links key = c.past.links.filter (·.uniqueidOrig = key) := by
  have apart := filed.distinct distinct
  have before := filed.links key
  simp only [held,phase,Phase.record,Phase.linksIn,next,List.filter_nil,List.append_nil] at apart before
  exact (c.visit_filed record c.data rest apart key).trans before

theorem step_filed {env : Env} {c next : MergeContainer} {action : Action} (filed : c.Filed env)
    (distinct : (c.past.legs.map (·.uniqueid)).Nodup) (whole : c.phase.walking = false → c.rest = [])
    (untouched : next.Untouched) (stepped : step env c action = some next) : next.Filed env := by
  have ⟨births,links⟩ := filed
  cases step_cases stepped with
  | dequeueLegs batch phase bound =>
    refine ⟨?_,?_⟩
    · simp only [held,phase,Phase.record,Phase.legsIn,List.filter_nil,List.map_nil,List.append_nil] at births
      simp [held,← births]
    · simpa [held,phase] using links
  | nothing phase =>
    refine ⟨?_,?_⟩
    · simpa [held,phase] using births
    · simpa [held,phase] using links
  | dequeueLinks legsIn batch phase bound =>
    refine ⟨?_,?_⟩
    · simpa [held,phase] using births
    · intro key
      have before := links key
      simp only [held,phase,Phase.record,Phase.linksIn,List.filter_nil,List.append_nil] at before
      simp [held,← before]
  | addLeg leg legsIn linksIn phase =>
    have outside := whole (by simp [phase])
    refine ⟨?_,?_⟩
    · cases orig : leg.orig with
      | true =>
        simpa [held,phase,outside,addLeg_data,orig,CallRecord.birth,
          CallRecord.ofLeg,Env.birth] using births
      | false => simpa [held,phase,outside,addLeg_data,orig] using births
    · intro key
      have born : ((if leg.orig then [CallRecord.ofLeg leg (env.stamp leg.startTime)] else []).filter
          (·.orig = key)).flatMap (·.links) = [] := by
        split
        · simp only [List.filter_cons]
          split <;> simp [CallRecord.ofLeg]
        · rfl
      simpa [held,phase,outside,addLeg_data,waiting,born] using links key
  | addLink link linksIn phase =>
    refine ⟨?_,?_⟩
    · simpa [held,phase,MergeContainer.addLink] using births
    · intro key
      have before := links key
      by_cases own : link.uniqueidOrig = key
      · subst own
        simpa [held,phase,MergeContainer.addLink,waiting,pushed_toList]
          using before
      · simpa [held,phase,MergeContainer.addLink,waiting,own,Ne.symm own]
          using before
  | regulate phase =>
    refine ⟨?_,?_⟩
    · simpa [held,phase] using births
    · simpa [held,phase,waiting] using links
  | pass save now record rest phase next due =>
    refine ⟨?_,?_⟩
    · simpa [held,phase,next,withoutMatched,CallRecord.birth] using births
    · intro key
      have visited := filed.visit distinct phase next key
      simpa [held,withoutMatched] using visited
  | keep save now record rest phase next early =>
    refine ⟨?_,?_⟩
    · simpa [held,phase,next,withoutMatched,CallRecord.birth] using births
    · intro key
      have visited := filed.visit distinct phase next key
      simpa [held,withoutMatched] using visited
  | enqueue save record phase => exact absurd untouched.output (by simp)
  | walked save phase done =>
    refine ⟨?_,?_⟩
    · simpa [held,phase] using births
    · simpa [held,phase] using links
  | purgeLeg save now cursor key leg phase next due => exact absurd untouched.purgedLegs (by simp)
  | keepLeg save now cursor key leg phase next early =>
    refine ⟨?_,?_⟩
    · simpa [held,phase] using births
    · simpa [held,phase] using links
  | purgeLinks save cursor phase done =>
    refine ⟨?_,?_⟩
    · simpa [held,phase,MergeContainer.purgeLinks] using births
    · have same : (c.purgeLinks env save).links = c.links := purgeLinks_untouched untouched.purgedLinks
      intro key
      rw [same]
      simpa [held,phase,MergeContainer.purgeLinks] using links key

theorem run_filed {env : Env} {start : Int} {c : MergeContainer}
    (run : Run (step env) Always (setStart start) c) :
    (c.past.legs.map (·.uniqueid)).Nodup → c.Untouched → c.Filed env := by
  induction run with
  | start =>
    intro _ _
    exact ⟨rfl,fun _ => rfl⟩
  | step state next action before _ stepped ih =>
    -- both premises speak of the last state and go back along the run
    intro distinct untouched
    have apart := distinct.sublist ((step_grown stepped).1.sublist.map _)
    have filed := ih apart (step_untouched untouched stepped)
    exact step_filed filed apart (run_rest before) untouched stepped

theorem claim_apart {c : MergeContainer} {record : CallRecord} (member : record ∈ c.records)
    (distinct : (c.legPlaces.map (·.uniqueid)).Nodup) :
    (Claim.items ⟨record.legs,c.legs,c.past.replaced⟩ |>.map (·.uniqueid)).Nodup := by
  have own : record.legs.values.Sublist c.recordLegs := by
    have inside := List.sublist_flatten_of_mem (List.mem_map_of_mem (f := (·.legs.values)) member)
    simpa [recordLegs,List.flatMap] using inside
  have part : (c.legs.values ++ record.legs.values ++ c.past.replaced.map Prod.fst).Sublist c.legPlaces := by
    refine List.Sublist.append ?_ (List.Sublist.refl _)
    refine List.Sublist.trans ?_ (List.sublist_append_left _ _)
    exact (List.sublist_append_right _ _).append own
  have swapped : (record.legs.values ++ c.legs.values ++ c.past.replaced.map Prod.fst).Perm
      (c.legs.values ++ record.legs.values ++ c.past.replaced.map Prod.fst) :=
    List.perm_append_comm.append_right _
  exact (swapped.map _).nodup_iff.mpr (distinct.sublist (part.map _))

theorem step_replaced {env : Env} {c next : MergeContainer} {action : Action} (shaped : c.Shaped)
    (distinct : (c.legPlaces.map (·.uniqueid)).Nodup) (none : c.past.replaced = [])
    (stepped : step env c action = some next) : next.past.replaced = [] := by
  have visit (record : CallRecord) (member : record ∈ c.records) :
      (c.claim record).replaced = [] := by
    have same := Claim.takes_replaced (c.attachLinks record).links _
      (shaped.keyed.claim_start (shaped.formed record member)) (fun _ own => own)
      (claim_apart member distinct)
    exact same.trans none
  cases step_cases stepped with
  | addLeg leg legsIn linksIn phase =>
    rw [addLeg_past,none]
    cases present : c.legs.find? leg.uniqueid with
    | none => simp [overwritten]
    | some old =>
      exfalso
      have same := (shaped.keyed.leg _ old present).1
      have waits : old ∈ c.legs.values := SortedMap.mem_values.mpr ⟨_,present⟩
      simp only [legPlaces,phase,Phase.legsIn,List.map_append,List.map_cons,List.append_assoc,
        List.cons_append,List.nodup_cons] at distinct
      refine distinct.1 (List.mem_append_right _ (List.mem_append_left _ ?_))
      exact same ▸ List.mem_map_of_mem waits
  | regulate phase => simpa using none
  | pass save now record rest phase next due => exact visit record (by simp [records,held,next])
  | keep save now record rest phase next early => exact visit record (by simp [records,held,next])
  | dequeueLegs | nothing | dequeueLinks | addLink | enqueue | walked | purgeLeg | keepLeg
  | purgeLinks => exact none

theorem run_replaced {env : Env} {start : Int} {c : MergeContainer}
    (run : Run (step env) Always (setStart start) c) :
    (c.past.legs.map (·.uniqueid)).Nodup → c.past.replaced = [] := by
  induction run with
  | start => exact fun _ => rfl
  | step state next action before _ stepped ih =>
    intro distinct
    have apart := distinct.sublist ((step_grown stepped).1.sublist.map _)
    have places := ((run_conserved before).legs.map (·.uniqueid)).nodup_iff.mpr apart
    exact step_replaced (run_shaped before) places (ih apart) stepped

theorem Filed.dequeued {env : Env} {c : MergeContainer} (filed : c.Filed env) {record : CallRecord}
    (current : record ∈ c.held) {link : CallLegLink} (member : link ∈ (c.attachLinks record).links) :
    link ∈ c.past.links := by
  have received : link ∈ c.past.links.filter (·.uniqueidOrig = record.orig) := by
    rw [← filed.links record.orig,List.append_assoc]
    rw [attachLinks_links] at member
    rcases List.mem_append.mp member with old | new
    · refine List.mem_append_left _ (List.mem_flatMap.mpr ⟨record,?_,old⟩)
      exact List.mem_filter.mpr ⟨current,by simp⟩
    · exact List.mem_append_right _ (List.mem_append_left _ new)
  exact (List.mem_filter.mp received).1

theorem Filed.links_eq {env : Env} {c : MergeContainer} (filed : c.Filed env)
    (distinct : (c.past.legs.map (·.uniqueid)).Nodup) {record : CallRecord} (current : record ∈ c.held)
    (accepted : c.phase.linksIn = []) (none : c.links.find? record.orig = none) :
    record.links = c.past.links.filter (·.uniqueidOrig = record.orig) := by
  have alone := filter_of_distinct (filed.distinct distinct) current
  have whole := filed.links record.orig
  rw [alone,accepted] at whole
  simpa [waiting,none] using whole

/-- Every leg of a record is its originating leg or belongs to it by both orders. -/
def Owned (legs : List CallLeg) (links : List CallLegLink) (record : CallRecord) : Prop :=
  ∀ key leg, record.legs.find? key = some leg →
    if leg.orig then key = record.orig else firstByLeg legs links key = some record.orig

/-- In the record loop, the call that takes a leg is the first one by both orders: the
other claimants that come earlier have been visited, and would have taken it. -/
theorem first_claim {env : Env} {legs : List CallLeg} {links : List CallLegLink} {c : MergeContainer}
    {save : Int} {record : CallRecord} {rest : List CallRecord} {key : String} {leg : CallLeg}
    {link : CallLegLink} (agree : FirstClaimsAgree legs links) (legPart : c.past.legs <+: legs)
    (linkPart : c.past.links <+: links) (shaped : c.Shaped) (conserved : c.Conserved env)
    (filed : c.Filed env) (distinct : (c.past.legs.map (·.uniqueid)).Nodup)
    (phase : c.phase = .walk save) (next : c.rest = record :: rest)
    (found : c.legs.find? key = some leg) (member : link ∈ (c.attachLinks record).links)
    (names : link.uniqueidTerm = key) : firstByLeg legs links key = some record.orig := by
  have current : record ∈ c.held := by simp [held,next]
  have own := shaped.keyed.attached (shaped.formed record (by simp [records,current])) link member
  have waits := shaped.keyed.leg key leg found
  have known : leg ∈ c.past.legs :=
    conserved.legs.subset (by simp [legPlaces,SortedMap.mem_values.mpr ⟨key,found⟩])
  have calls : callers c.past.legs = c.data.map (·.orig) ++ record.orig :: rest.map (·.orig) := by
    rw [← filed.callers]
    simp [held,phase,next,callers]
  have claims : record.orig ∈ claimants (callers legs) c.past.links key :=
    mem_claimants.mpr ⟨(callers_initial legPart).subset (by simp [calls]),link,
      filed.dequeued current member,names,own⟩
  obtain ⟨first,byLeg,early,place⟩ :=
    first_of_agree agree legPart linkPart known waits.2 waits.1 calls claims
  rcases place with rfl | before
  · exact byLeg
  · obtain ⟨owner,visited,rfl⟩ := List.mem_map.mp before
    obtain ⟨_,theirs,received,theirName,theirOrig⟩ := mem_claimants.mp early
    have matched := shaped.matched (by simp [phase]) owner
      (List.mem_append_left _ visited)
    have attached : theirs ∈ owner.links := by
      rw [filed.links_eq distinct (by simp [held,visited]) (by simp [phase]) matched.1]
      exact List.mem_filter.mpr ⟨received,by simpa using theirOrig⟩
    have taken := matched.2 theirs attached
    rw [theirName,found] at taken
    contradiction

theorem addLeg_owned {env : Env} {legs : List CallLeg} {links : List CallLegLink} (leg : CallLeg)
    (orig : leg.orig = true) : Owned legs links (CallRecord.ofLeg leg (env.stamp leg.startTime)) := by
  intro key other present
  simp only [CallRecord.ofLeg,SortedMap.find?_insert,SortedMap.find?_empty] at present
  split_ifs at present with same
  cases Option.some.inj present
  simpa [orig,CallRecord.ofLeg] using same

theorem step_owned {env : Env} {legs : List CallLeg} {links : List CallLegLink}
    {c next : MergeContainer} {action : Action} (agree : FirstClaimsAgree legs links)
    (legPart : c.past.legs <+: legs) (linkPart : c.past.links <+: links) (shaped : c.Shaped)
    (conserved : c.Conserved env) (filed : c.Filed env)
    (distinct : (c.past.legs.map (·.uniqueid)).Nodup)
    (owned : ∀ record ∈ c.held, Owned legs links record)
    (stepped : step env c action = some next) : ∀ record ∈ next.held, Owned legs links record := by
  intro record member
  rcases step_held stepped record member with old | born | visited
  · exact owned record old
  · obtain ⟨leg,_,orig,same⟩ := born
    rw [same]
    exact addLeg_owned leg orig
  · obtain ⟨save,earlier,rest,phase,next,same⟩ := visited
    have current : earlier ∈ c.held := by simp [held,next]
    have start := shaped.keyed.claim_start (shaped.formed earlier (List.mem_append_left _ current))
    rw [same]
    intro key leg present
    rw [matched_orig]
    rcases Claim.takes_own _ _ start (fun _ own => own) present with own | ⟨found,link,claims,names⟩
    · exact owned earlier current key leg own
    · rw [(shaped.keyed.leg key leg found).2]
      exact first_claim agree legPart linkPart shaped conserved filed distinct phase next found claims names

theorem run_owned {env : Env} {start : Int} {legs : List CallLeg} {links : List CallLegLink}
    {c : MergeContainer} (agree : FirstClaimsAgree legs links)
    (distinct : (legs.map (·.uniqueid)).Nodup) (run : Run (step env) Always (setStart start) c) :
    c.past.legs <+: legs → c.past.links <+: links → c.Untouched →
      ∀ record ∈ c.held, Owned legs links record := by
  induction run with
  | start =>
    intro _ _ _ record member
    simp [setStart,held] at member
  | step state next action before _ stepped ih =>
    intro legPart linkPart untouched
    have legPart := (step_grown stepped).1.trans legPart
    have linkPart := (step_grown stepped).2.trans linkPart
    have earlier := step_untouched untouched stepped
    have apart := distinct.sublist (legPart.sublist.map (·.uniqueid))
    exact step_owned agree legPart linkPart (run_shaped before) (run_conserved before)
      (run_filed before apart earlier) apart (ih legPart linkPart earlier) stepped

/-- What the records of consumed streams are, whatever the batches were. -/
structure Merged (legs : List CallLeg) (links : List CallLegLink) (record : CallRecord) : Prop where
  attached : record.links = links.filter (·.uniqueidOrig = record.orig)
  claimed : ∀ key leg, record.legs.find? key = some leg ↔ leg ∈ legs ∧ leg.uniqueid = key ∧
    if leg.orig then key = record.orig else firstByLeg legs links key = some record.orig

theorem consumed_merged {env : Env} {start : Int} {legs : List CallLeg} {links : List CallLegLink}
    {c : MergeContainer} (agree : FirstClaimsAgree legs links)
    (distinct : (legs.map (·.uniqueid)).Nodup) (run : Run (step env) Always (setStart start) c)
    (untouched : c.Untouched) (consumed : c.Consumed legs links) :
    ∀ record ∈ c.held, Merged legs links record := by
  obtain ⟨idle,rfl,rfl⟩ := consumed
  have shaped := run_shaped run
  have conserved := run_conserved run
  have filed := run_filed run distinct untouched
  have owned := run_owned agree distinct run (List.prefix_refl _) (List.prefix_refl _) untouched
  have phase := Phase.idle_iff.mp idle
  have outside := run_rest run (by simp [phase])
  have matched (record : CallRecord) (current : record ∈ c.held) : c.Matched record :=
    shaped.matched (by simp [phase]) record (by simpa [held,visited,outside] using current)
  have attached (record : CallRecord) (current : record ∈ c.held) :=
    filed.links_eq distinct current (by simp [phase]) (matched record current).1
  intro record current
  refine ⟨attached record current,fun key leg => ⟨fun present => ?_,?_⟩⟩
  · have formed := shaped.formed record (by simp [records,current])
    refine ⟨conserved.legs.subset ?_,formed.keyed key leg present,owned record current key leg present⟩
    have inside : leg ∈ c.recordLegs :=
      List.mem_flatMap.mpr ⟨record,by simp [records,current],SortedMap.mem_values.mpr ⟨key,present⟩⟩
    simp [legPlaces,inside]
  · intro placed
    obtain ⟨known,rfl,belongs⟩ := placed
    have placed : leg ∈ c.legs.values ∨ ∃ other ∈ c.held, leg ∈ other.legs.values := by
      have place := conserved.legs.symm.subset known
      simpa [legPlaces,phase,run_replaced run distinct,untouched.purgedLegs,recordLegs,
        records,untouched.output] using place
    rcases placed with waits | ⟨other,there,member⟩
    · -- a leg still waiting would have been taken by the record that claims it
      exfalso
      obtain ⟨key,found⟩ := SortedMap.mem_values.mp waits
      obtain ⟨rfl,term⟩ := shaped.keyed.leg key leg found
      rw [term,if_neg (by simp)] at belongs
      have claims : record.orig ∈ claimants (callers c.past.legs) c.past.links leg.uniqueid := by
        simpa using List.find?_some belongs
      obtain ⟨_,link,received,names,own⟩ := mem_claimants.mp claims
      have mine : link ∈ record.links := by
        rw [attached record current]
        exact List.mem_filter.mpr ⟨received,by simpa using own⟩
      have taken := (matched record current).2 link mine
      rw [names,found] at taken
      contradiction
    · obtain ⟨key,present⟩ := SortedMap.mem_values.mp member
      have formed := shaped.formed other (by simp [records,there])
      cases formed.keyed key leg present
      have theirs := owned other there leg.uniqueid leg present
      have same : other.orig = record.orig := by
        cases orig : leg.orig with
        | true =>
          rw [orig,if_pos rfl] at belongs theirs
          exact theirs.symm.trans belongs
        | false =>
          rw [orig,if_neg (by simp)] at belongs theirs
          exact Option.some.inj (theirs.symm.trans belongs)
      cases List.inj_on_of_nodup_map (filed.distinct distinct) there current same
      exact present

theorem Merged.unique {legs : List CallLeg} {links : List CallLegLink} {first second : CallRecord}
    (left : Merged legs links first) (right : Merged legs links second)
    (same : first.birth = second.birth) : first = second := by
  obtain ⟨orig,startTime⟩ := Prod.mk.inj same
  have sameLinks : first.links = second.links := by
    rw [left.attached,right.attached,orig]
  have sameLegs : first.legs = second.legs := by
    ext key leg
    rw [left.claimed,right.claimed,orig]
  cases first
  cases second
  simp_all

theorem eq_of_births {legs : List CallLeg} {links : List CallLegLink} {first second : List CallRecord}
    (left : ∀ record ∈ first, Merged legs links record)
    (right : ∀ record ∈ second, Merged legs links record)
    (same : first.map CallRecord.birth = second.map CallRecord.birth) : first = second := by
  have size : first.length = second.length := by simpa using congrArg List.length same
  refine List.ext_getElem size fun i inFirst inSecond => ?_
  have births : first[i].birth = second[i].birth := by
    have entries := congrArg (·[i]?) same
    simpa [inFirst,inSecond] using entries
  exact (left _ (List.getElem_mem inFirst)).unique (right _ (List.getElem_mem inSecond)) births

/-- Streams whose contested legs agree on the first call leave the same records however
they are cut into batches: every leg is where both orders put it, and the links of
every call stand in stream order. -/
theorem batching_irrelevant (env : Env) (start : Int) (legs : List CallLeg) (links : List CallLegLink)
    (distinct : (legs.map (·.uniqueid)).Nodup) (agree : FirstClaimsAgree legs links)
    (first second : MergeContainer)
    (firstRun : Run (step env) Always (setStart start) first)
    (secondRun : Run (step env) Always (setStart start) second)
    (firstUntouched : first.Untouched) (secondUntouched : second.Untouched)
    (firstConsumed : first.Consumed legs links) (secondConsumed : second.Consumed legs links) :
    first.held = second.held := by
  refine eq_of_births (consumed_merged agree distinct firstRun firstUntouched firstConsumed)
    (consumed_merged agree distinct secondRun secondUntouched secondConsumed) ?_
  have births {c : MergeContainer} (run : Run (step env) Always (setStart start) c)
      (untouched : c.Untouched) (consumed : c.Consumed legs links) :
      c.held.map CallRecord.birth = (legs.filter (·.orig)).map env.birth := by
    obtain ⟨idle,rfl,rfl⟩ := consumed
    have phase := Phase.idle_iff.mp idle
    simpa [phase] using (run_filed run distinct untouched).births
  rw [births firstRun firstUntouched firstConsumed,births secondRun secondUntouched secondConsumed]

def twoCalls : List CallLeg :=
  [.row "a" true "1970-01-01 00:00:05",.row "b" true "1970-01-01 00:00:06",
    .row "t" false "1970-01-01 00:00:07"]

def linkA : CallLegLink := .row "a" "t" "1970-01-01 00:00:05"

def linkB : CallLegLink := .row "b" "t" "1970-01-01 00:00:06"

def together (links : List CallLegLink) : List Action :=
  [.dequeueLegs twoCalls,.dequeueLinks links,.work,.work,.work,.work,.work,.work,
    .getTime 0,.getTime 0,.work,.work]

def apart (early late : CallLegLink) : List Action :=
  [.dequeueLegs twoCalls,.dequeueLinks [early],.work,.work,.work,.work,.work,
    .getTime 0,.getTime 0,.work,.work,
    .dequeueLegs [],.dequeueLinks [late],.work,.work,.getTime 0,.getTime 0,.work,.work]

theorem exists_consumed (actions : List Action) (links : List CallLegLink) (good : MergeContainer → Bool)
    (ended : (execute (step shortCalls) Always actions (setStart 0)).any (fun c => c.phase.idle &&
      c.output.isEmpty && c.past.purgedLegs.isEmpty && c.past.purgedLinks.isEmpty && good c) = true)
    (dequeued : (execute (step shortCalls) Always actions (setStart 0)).map
      (fun c => (c.past.legs,c.past.links)) = some (twoCalls,links)) :
    ∃ c, Run (step shortCalls) Always (setStart 0) c ∧ c.Untouched ∧ c.Consumed twoCalls links ∧
      good c = true := by
  obtain ⟨c,executed,streams⟩ := Option.map_eq_some_iff.mp dequeued
  obtain ⟨legs,links⟩ := Prod.mk.inj streams
  rw [executed] at ended
  simp only [Option.any_some,Bool.and_eq_true,List.isEmpty_iff] at ended
  obtain ⟨⟨⟨⟨idle,output⟩,purgedLegs⟩,purgedLinks⟩,chosen⟩ := ended
  exact ⟨c,run_of_execute .start actions executed,⟨output,purgedLegs,purgedLinks⟩,⟨idle,legs,links⟩,chosen⟩

theorem batching_irrelevant_twoCalls : ∃ first second : MergeContainer,
    (first.held.length = 2 ∧ first.held.map (·.legs.values.length) = [2,1]) ∧
    first.held = second.held := by
  obtain ⟨first,firstRun,firstUntouched,firstConsumed,good⟩ :=
    exists_consumed (together [linkA,linkB]) [linkA,linkB]
      (fun c => c.held.length == 2 && c.held.map (·.legs.values.length) == [2,1]) (by decide) rfl
  obtain ⟨second,secondRun,secondUntouched,secondConsumed,_⟩ :=
    exists_consumed (apart linkA linkB) [linkA,linkB] (fun _ => true) (by decide) rfl
  simp only [Bool.and_eq_true,beq_iff_eq] at good
  exact ⟨first,second,good,batching_irrelevant shortCalls 0 twoCalls [linkA,linkB] (by decide)
    (by decide) first second firstRun secondRun firstUntouched secondUntouched firstConsumed secondConsumed⟩

/-- The call that comes second has its link first: with both links in one batch the
first call takes the leg, with the links in two batches the second one does. -/
theorem batching_matters : ¬∀ (env : Env) (start : Int) (legs : List CallLeg)
    (links : List CallLegLink) (first second : MergeContainer),
    (legs.map (·.uniqueid)).Nodup →
    Run (step env) Always (setStart start) first → Run (step env) Always (setStart start) second →
    first.Untouched → second.Untouched → first.Consumed legs links → second.Consumed legs links →
    first.held.map (fun record => (record.orig,record.legs.values)) =
      second.held.map (fun record => (record.orig,record.legs.values)) := by
  intro same
  obtain ⟨first,firstRun,firstUntouched,firstConsumed,one⟩ :=
    exists_consumed (together [linkB,linkA]) [linkB,linkA]
      (fun c => c.held.map (·.legs.values.length) == [2,1]) (by decide) rfl
  obtain ⟨second,secondRun,secondUntouched,secondConsumed,other⟩ :=
    exists_consumed (apart linkB linkA) [linkB,linkA]
      (fun c => c.held.map (·.legs.values.length) == [1,2]) (by decide) rfl
  have equal := same shortCalls 0 twoCalls [linkB,linkA] first second (by decide) firstRun secondRun
    firstUntouched secondUntouched firstConsumed secondConsumed
  have sizes := congrArg (List.map fun entry => entry.2.length) equal
  simp only [List.map_map,Function.comp_def] at sizes
  rw [beq_iff_eq] at one other
  rw [one,other] at sizes
  contradiction

end MergeContainer
end Call45Aggr
