import Call45Aggr.MergeContainer

/-! What the matching loop leaves behind: every record holds only legs and links that
belong to it, and nothing that could be attached to a visited record still waits. -/
namespace Call45Aggr
open Library

namespace Claim

theorem take_absent (claim : Claim) (link : CallLegLink) {key : String}
    (absent : claim.legs.find? key = none) : (claim.take link).legs.find? key = none := by
  unfold take
  split
  · simp [absent]
  · exact absent

theorem take_term (claim : Claim) (link : CallLegLink) :
    (claim.take link).legs.find? link.uniqueidTerm = none := by
  unfold take
  split
  next => simp
  next absent => exact absent

theorem takes_absent (links : List CallLegLink) (claim : Claim) {key : String}
    (absent : claim.legs.find? key = none) : (links.foldl take claim).legs.find? key = none := by
  induction links generalizing claim with
  | nil => exact absent
  | cons link links ih => exact ih (claim.take link) (claim.take_absent link absent)

theorem takes_terms (links : List CallLegLink) (claim : Claim) (link : CallLegLink)
    (member : link ∈ links) : (links.foldl take claim).legs.find? link.uniqueidTerm = none := by
  induction links generalizing claim with
  | nil => simp at member
  | cons first links ih =>
    rcases List.mem_cons.mp member with rfl | later
    · exact takes_absent links _ (claim.take_term link)
    · exact ih (claim.take first) later

/-- The legs of a record with the given orig and links, and the legs still waiting,
in the middle of the inner loop. -/
structure Formed (orig : String) (links : List CallLegLink) (claim : Claim) : Prop where
  own : ∃ leg, claim.own.find? orig = some leg
  keyed : ∀ key leg, claim.own.find? key = some leg → leg.uniqueid = key
  named : ∀ key leg, claim.own.find? key = some leg → key ≠ orig →
    ∃ link ∈ links, link.uniqueidTerm = key
  waiting : ∀ key leg, claim.legs.find? key = some leg → leg.uniqueid = key ∧ leg.orig = false

theorem take_formed {orig : String} {links : List CallLegLink} {claim : Claim}
    (formed : claim.Formed orig links) (link : CallLegLink) (member : link ∈ links) :
    (claim.take link).Formed orig links := by
  unfold take
  split
  next leg found =>
    have key := (formed.waiting _ _ found).1
    refine ⟨?_,?_,?_,?_⟩
    · by_cases same : orig = leg.uniqueid
      · exact ⟨leg,by simp [same]⟩
      · obtain ⟨own,present⟩ := formed.own
        exact ⟨own,by simp [same,present]⟩
    · intro k taken present
      rw [SortedMap.find?_insert] at present
      split_ifs at present with same
      · cases Option.some.inj present
        exact same.symm
      · exact formed.keyed k taken present
    · intro k taken present other
      rw [SortedMap.find?_insert] at present
      split_ifs at present with same
      · exact ⟨link,member,by rw [same,key]⟩
      · exact formed.named k taken present other
    · intro k waiting present
      rw [SortedMap.find?_erase] at present
      split_ifs at present
      exact formed.waiting k waiting present
  next => exact formed

theorem takes_formed {orig : String} {links : List CallLegLink} {claim : Claim}
    (formed : claim.Formed orig links) (rest : List CallLegLink) (part : ∀ link ∈ rest, link ∈ links) :
    (rest.foldl take claim).Formed orig links := by
  induction rest generalizing claim with
  | nil => exact formed
  | cons link rest ih =>
    exact ih (take_formed formed link (part link (by simp)))
      (fun other member => part other (by simp [member]))

end Claim

structure CallRecord.WellFormed (record : CallRecord) : Prop where
  own : ∃ leg, record.legs.find? record.orig = some leg
  keyed : ∀ key leg, record.legs.find? key = some leg → leg.uniqueid = key
  named : ∀ key leg, record.legs.find? key = some leg → key ≠ record.orig →
    ∃ link ∈ record.links, link.uniqueidTerm = key
  links : ∀ link ∈ record.links, link.uniqueidOrig = record.orig

theorem CallRecord.ofLeg_wellFormed (leg : CallLeg) (stemp : Int) :
    (CallRecord.ofLeg leg stemp).WellFormed := by
  refine ⟨⟨leg,by simp [ofLeg]⟩,?_,?_,by simp [ofLeg]⟩
  · intro key other present
    simp only [ofLeg,SortedMap.find?_insert,SortedMap.find?_empty] at present
    split_ifs at present with same
    cases Option.some.inj present
    exact same.symm
  · intro key other present apart
    simp only [ofLeg,SortedMap.find?_insert,SortedMap.find?_empty] at present
    split_ifs at present with same
    exact absurd same apart

namespace MergeContainer

def Matched (c : MergeContainer) (record : CallRecord) : Prop :=
  c.links.find? record.orig = none ∧ ∀ link ∈ record.links, c.legs.find? link.uniqueidTerm = none

structure Keyed (c : MergeContainer) : Prop where
  bucket : ∀ key cll, c.links.find? key = some cll → ∀ link ∈ cll.toList, link.uniqueidOrig = key
  leg : ∀ key leg, c.legs.find? key = some leg → leg.uniqueid = key ∧ leg.orig = false

def visited (c : MergeContainer) : List CallRecord := c.data ++ c.phase.record

structure Shaped (c : MergeContainer) : Prop where
  keyed : c.Keyed
  formed : ∀ record ∈ c.records, record.WellFormed
  matched : c.phase.settled = true → ∀ record ∈ c.visited, c.Matched record

@[simp] theorem attachLinks_orig (c : MergeContainer) (record : CallRecord) :
    (c.attachLinks record).orig = record.orig := by
  unfold attachLinks
  split <;> rfl

@[simp] theorem attachLinks_startTime (c : MergeContainer) (record : CallRecord) :
    (c.attachLinks record).startTime = record.startTime := by
  unfold attachLinks
  split <;> rfl

theorem attachLinks_links (c : MergeContainer) (record : CallRecord) :
    (c.attachLinks record).links = record.links ++
      ((c.links.find? record.orig).map Bucket.toList).getD [] := by
  unfold attachLinks
  split <;> simp [*]

@[simp] theorem matched_orig (c : MergeContainer) (record : CallRecord) :
    (c.matched record).orig = record.orig := c.attachLinks_orig record

@[simp] theorem matched_startTime (c : MergeContainer) (record : CallRecord) :
    (c.matched record).startTime = record.startTime := c.attachLinks_startTime record

theorem matched_links (c : MergeContainer) (record : CallRecord) :
    (c.matched record).links = (c.attachLinks record).links := rfl

theorem Keyed.attached {c : MergeContainer} (keyed : c.Keyed) {record : CallRecord}
    (formed : record.WellFormed) :
    ∀ link ∈ (c.attachLinks record).links, link.uniqueidOrig = record.orig := by
  intro link member
  rw [attachLinks_links] at member
  rcases List.mem_append.mp member with old | new
  · exact formed.links link old
  · cases found : c.links.find? record.orig with
    | none => simp [found] at new
    | some cll => exact keyed.bucket _ cll found link (by simpa [found] using new)

theorem Keyed.claim_start {c : MergeContainer} (keyed : c.Keyed) {record : CallRecord}
    (formed : record.WellFormed) :
    Claim.Formed record.orig (c.attachLinks record).links ⟨record.legs,c.legs,c.past.replaced⟩ := by
  refine ⟨formed.own,formed.keyed,?_,keyed.leg⟩
  intro key leg present apart
  obtain ⟨link,member,names⟩ := formed.named key leg present apart
  exact ⟨link,by simp [attachLinks_links,member],names⟩

theorem Keyed.claim_formed {c : MergeContainer} (keyed : c.Keyed) {record : CallRecord}
    (formed : record.WellFormed) :
    (c.claim record).Formed record.orig (c.attachLinks record).links :=
  Claim.takes_formed (keyed.claim_start formed) _ (fun _ member => member)

theorem Keyed.matched_wellFormed {c : MergeContainer} (keyed : c.Keyed) {record : CallRecord}
    (formed : record.WellFormed) : (c.matched record).WellFormed := by
  have claimed := keyed.claim_formed formed
  refine ⟨?_,claimed.keyed,?_,?_⟩
  · rw [matched_orig]
    exact claimed.own
  · rw [matched_orig]
    exact claimed.named
  · rw [matched_orig]
    exact keyed.attached formed

theorem Keyed.withoutMatched {c : MergeContainer} (keyed : c.Keyed) {record : CallRecord}
    (formed : record.WellFormed) : (c.withoutMatched record).Keyed := by
  refine ⟨?_,(keyed.claim_formed formed).waiting⟩
  intro key cll present
  simp only [MergeContainer.withoutMatched,SortedMap.find?_erase] at present
  split_ifs at present
  exact keyed.bucket key cll present

theorem matched_self (c : MergeContainer) (record : CallRecord) :
    (c.withoutMatched record).Matched (c.matched record) := by
  refine ⟨by simp [withoutMatched],?_⟩
  intro link member
  exact Claim.takes_terms _ _ link member

theorem Matched.visit {c : MergeContainer} {earlier : CallRecord} (done : c.Matched earlier)
    (record : CallRecord) : (c.withoutMatched record).Matched earlier := by
  refine ⟨by simp [withoutMatched,done.1],?_⟩
  intro link member
  exact Claim.takes_absent _ _ (done.2 link member)

theorem Keyed.addLeg {c : MergeContainer} (keyed : c.Keyed) (env : Env) (leg : CallLeg) :
    (c.addLeg env leg).Keyed := by
  unfold MergeContainer.addLeg
  cases orig : leg.orig with
  | true => exact ⟨keyed.bucket,keyed.leg⟩
  | false =>
    refine ⟨keyed.bucket,?_⟩
    intro key other present
    simp only [Bool.false_eq_true,if_false,SortedMap.find?_insert] at present
    split_ifs at present with same
    · cases Option.some.inj present
      exact ⟨same.symm,orig⟩
    · exact keyed.leg key other present

theorem pushed_toList (c : MergeContainer) (link : CallLegLink) : (c.pushed link).toList =
    ((c.links.find? link.uniqueidOrig).map Bucket.toList).getD [] ++ [link] := by
  cases found : c.links.find? link.uniqueidOrig with
  | none => simp [pushed,found,Bucket.toList]
  | some cll => simp [pushed,found]

theorem Keyed.addLink {c : MergeContainer} (keyed : c.Keyed) (env : Env) (link : CallLegLink) :
    (c.addLink env link).Keyed := by
  refine ⟨?_,keyed.leg⟩
  intro key cll present other member
  simp only [MergeContainer.addLink,SortedMap.find?_insert] at present
  split_ifs at present with same
  · cases Option.some.inj present
    rw [pushed_toList] at member
    rcases List.mem_append.mp member with before | last
    · cases found : c.links.find? link.uniqueidOrig with
      | none => simp [found] at before
      | some old => exact same ▸ keyed.bucket _ old found other (by simpa [found] using before)
    · rw [List.mem_singleton.mp last,same]
  · exact keyed.bucket key cll present other member

theorem setStart_shaped (start : Int) : (setStart start).Shaped := by
  refine ⟨⟨?_,?_⟩,?_,?_⟩
  · intro key cll present
    simp [setStart] at present
  · intro key leg present
    simp [setStart] at present
  · intro record member
    simp [setStart,records,held] at member
  · intro _ record member
    simp [setStart,visited] at member

theorem step_held {env : Env} {c next : MergeContainer} {action : Action}
    (stepped : step env c action = some next) : ∀ record ∈ next.held, record ∈ c.held ∨
      (∃ leg ∈ c.phase.legsIn, leg.orig = true ∧
        record = CallRecord.ofLeg leg (env.stamp leg.startTime)) ∨
      ∃ save earlier rest, c.phase = .walk save ∧ c.rest = earlier :: rest ∧
        record = c.matched earlier := by
  intro record member
  cases step_cases stepped with
  | addLeg leg legsIn linksIn phase =>
    simp only [held,Phase.record,List.append_nil,List.mem_append,addLeg_data,addLeg_rest] at member
    rcases member with (old | new) | later
    · exact .inl (by simp [held,old])
    · cases orig : leg.orig with
      | true =>
        rw [orig,if_pos rfl] at new
        exact .inr (.inl ⟨leg,by simp [phase],orig,List.mem_singleton.mp new⟩)
      | false => simp [orig] at new
    · exact .inl (by simp [held,later])
  | pass save now earlier rest phase next due =>
    simp only [held,Phase.record,List.mem_append,List.mem_singleton] at member
    rcases member with (old | visited) | later
    · exact .inl (List.mem_append_left _ (List.mem_append_left _ old))
    · exact .inr (.inr ⟨save,earlier,rest,phase,next,visited⟩)
    · exact .inl (by simp [held,next,later])
  | keep save now earlier rest phase next early =>
    simp only [held,Phase.record,List.append_nil,List.mem_append,List.mem_singleton] at member
    rcases member with (old | visited) | later
    · exact .inl (List.mem_append_left _ (List.mem_append_left _ old))
    · exact .inr (.inr ⟨save,earlier,rest,phase,next,visited⟩)
    · exact .inl (by simp [held,next,later])
  | enqueue save waiting phase =>
    left
    simp only [held,phase,Phase.record,List.append_nil,List.mem_append] at member ⊢
    exact member.imp_left .inl
  | addLink link linksIn phase => exact .inl (by simpa [held,phase,MergeContainer.addLink] using member)
  | purgeLinks save cursor phase done =>
    exact .inl (by simpa [held,phase,MergeContainer.purgeLinks] using member)
  | dequeueLegs _ phase
  | nothing phase
  | dequeueLinks _ _ phase
  | regulate phase
  | walked _ phase
  | purgeLeg _ _ _ _ _ phase
  | keepLeg _ _ _ _ _ phase => exact .inl (by simpa [held,phase] using member)

theorem step_emitted {env : Env} {c next : MergeContainer} {action : Action}
    (stepped : step env c action = some next) : ∀ record ∈ next.output, record ∈ c.records := by
  intro record member
  cases step_cases stepped with
  | enqueue save waiting phase =>
    rcases List.mem_append.mp member with old | new
    · simp [records,old]
    · cases List.mem_singleton.mp new
      simp [records,held,phase]
  | addLeg leg legsIn linksIn phase =>
    rw [addLeg_output] at member
    exact List.mem_append_right _ member
  | regulate phase =>
    rw [regulate_output] at member
    exact List.mem_append_right _ member
  | _ => exact List.mem_append_right _ member

theorem step_keyed {env : Env} {c next : MergeContainer} {action : Action} (keyed : c.Keyed)
    (formed : ∀ record ∈ c.records, record.WellFormed) (stepped : step env c action = some next) :
    next.Keyed := by
  cases step_cases stepped with
  | addLeg leg legsIn linksIn phase =>
    have kept := keyed.addLeg env leg
    exact ⟨kept.bucket,kept.leg⟩
  | addLink link linksIn phase =>
    have kept := keyed.addLink env link
    exact ⟨kept.bucket,kept.leg⟩
  | regulate phase => exact ⟨by simpa using keyed.bucket,by simpa using keyed.leg⟩
  | pass save now record rest phase next due =>
    have kept := keyed.withoutMatched (formed record (by simp [records,held,next]))
    exact ⟨kept.bucket,kept.leg⟩
  | keep save now record rest phase next early =>
    have kept := keyed.withoutMatched (formed record (by simp [records,held,next]))
    exact ⟨kept.bucket,kept.leg⟩
  | purgeLeg save now cursor key leg phase next due =>
    refine ⟨keyed.bucket,?_⟩
    intro other waiting present
    simp only [SortedMap.find?_erase] at present
    split_ifs at present
    exact keyed.leg other waiting present
  | purgeLinks save cursor phase done =>
    refine ⟨?_,keyed.leg⟩
    intro key cll present
    exact keyed.bucket key cll (SortedMap.find?_filter.mp present).1
  | dequeueLegs | nothing | dequeueLinks | enqueue | walked | keepLeg =>
    exact ⟨keyed.bucket,keyed.leg⟩

theorem step_formed {env : Env} {c next : MergeContainer} {action : Action} (keyed : c.Keyed)
    (formed : ∀ record ∈ c.records, record.WellFormed) (stepped : step env c action = some next) :
    ∀ record ∈ next.records, record.WellFormed := by
  intro record member
  rcases List.mem_append.mp member with current | out
  · rcases step_held stepped record current with old | born | visited
    · exact formed record (List.mem_append_left _ old)
    · obtain ⟨leg,_,_,same⟩ := born
      rw [same]
      exact CallRecord.ofLeg_wellFormed leg _
    · obtain ⟨save,earlier,rest,_,next,same⟩ := visited
      rw [same]
      exact keyed.matched_wellFormed (formed earlier (by simp [records,held,next]))
  · exact formed record (step_emitted stepped record out)

theorem step_matched {env : Env} {c next : MergeContainer} {action : Action}
    (matched : c.phase.settled = true → ∀ record ∈ c.visited, c.Matched record)
    (stepped : step env c action = some next) :
    next.phase.settled = true → ∀ record ∈ next.visited, next.Matched record := by
  intro settled record member
  cases step_cases stepped with
  | dequeueLinks | addLeg | addLink => simp at settled
  | regulate phase => simp [visited] at member
  | pass save now earlier rest phase next due =>
    rcases List.mem_append.mp member with old | new
    · exact (matched (by simp [phase]) record (List.mem_append_left _ old)).visit earlier
    · cases List.mem_singleton.mp new
      exact c.matched_self earlier
  | keep save now earlier rest phase next early =>
    simp only [visited,Phase.record,List.append_nil,List.mem_append,List.mem_singleton] at member
    rcases member with old | same
    · exact (matched (by simp [phase]) record (List.mem_append_left _ old)).visit earlier
    · rw [same]
      exact c.matched_self earlier
  | purgeLeg save now cursor key leg phase next due =>
    have still := matched (by simp [phase]) record (by simpa [visited,phase] using member)
    exact ⟨still.1,fun link own => by simp [still.2 link own]⟩
  | purgeLinks save cursor phase done =>
    have still := matched (by simp [phase]) record
      (by simpa [visited,phase,MergeContainer.purgeLinks] using member)
    exact ⟨SortedMap.filter_absent still.1,still.2⟩
  | enqueue save waiting phase =>
    refine matched (by simp [phase]) record (List.mem_append_left _ ?_)
    simpa [visited] using member
  | dequeueLegs _ phase
  | nothing phase
  | walked _ phase
  | keepLeg _ _ _ _ _ phase =>
    exact matched (by simp [phase]) record (by simpa [visited,phase] using member)

theorem step_shaped {env : Env} {c next : MergeContainer} {action : Action} (shaped : c.Shaped)
    (stepped : step env c action = some next) : next.Shaped :=
  ⟨step_keyed shaped.keyed shaped.formed stepped,step_formed shaped.keyed shaped.formed stepped,
    step_matched shaped.matched stepped⟩

theorem run_shaped {env : Env} {start : Int} {c : MergeContainer}
    (run : Run (step env) Always (setStart start) c) : c.Shaped :=
  run.invariant (setStart_shaped start) fun _ _ _ _ shaped _ stepped => step_shaped shaped stepped

theorem step_rest {env : Env} {c next : MergeContainer} {action : Action}
    (whole : c.phase.walking = false → c.rest = [])
    (stepped : step env c action = some next) : next.phase.walking = false → next.rest = [] := by
  intro outside
  cases step_cases stepped with
  | addLeg leg legsIn linksIn phase =>
    rw [← whole (by simp [phase])]
    exact c.addLeg_rest env leg
  | _ => simp_all [MergeContainer.addLink,MergeContainer.purgeLinks]

theorem run_rest {env : Env} {start : Int} {c : MergeContainer}
    (run : Run (step env) Always (setStart start) c) : c.phase.walking = false → c.rest = [] :=
  run.invariant (fun _ => rfl) fun _ _ _ _ whole _ stepped => step_rest whole stepped

/-- Every record held or emitted consists of what belongs to it, and once a matching
loop is over nothing that belongs to a held record is left waiting. -/
theorem records_matched (env : Env) (start : Int) (c : MergeContainer)
    (run : Run (step env) Always (setStart start) c) :
    (∀ record ∈ c.records,
      (∃ leg, record.legs.find? record.orig = some leg) ∧
      (∀ key leg, record.legs.find? key = some leg → leg.uniqueid = key) ∧
      (∀ key leg, record.legs.find? key = some leg → key ≠ record.orig →
        ∃ link ∈ record.links, link.uniqueidTerm = key) ∧
      (∀ link ∈ record.links, link.uniqueidOrig = record.orig)) ∧
    (c.phase.iterated = true → ∀ record ∈ c.held,
      c.links.find? record.orig = none ∧
      ∀ link ∈ record.links, c.legs.find? link.uniqueidTerm = none) := by
  have shaped := run_shaped run
  refine ⟨?_,?_⟩
  · intro record member
    have formed := shaped.formed record member
    exact ⟨formed.own,formed.keyed,formed.named,formed.links⟩
  · intro iterated record member
    have outside : c.phase.walking = false ∧ c.phase.settled = true := by
      cases phase : c.phase <;> simp_all
    apply shaped.matched outside.2
    simpa [held,visited,run_rest run outside.1] using member

theorem records_matched_oneCall : ∃ c : MergeContainer,
    (c.output.length = 1 ∧ c.held.length = 1) ∧
    ∀ record ∈ c.held, c.links.find? record.orig = none := by
  obtain ⟨c,run,good⟩ := exists_run (step shortCalls) Always (setStart 0)
    (fun c => c.output.length == 1 && c.held.length == 1 && c.phase.iterated) oneCall (by decide)
  simp only [Bool.and_eq_true,beq_iff_eq] at good
  refine ⟨c,good.1,?_⟩
  intro record member
  exact ((records_matched shortCalls 0 c run).2 good.2 record member).1

end MergeContainer
end Call45Aggr
