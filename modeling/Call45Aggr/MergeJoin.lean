import Call45Aggr.LegCompleteness
import Mathlib.Data.List.Pairwise

/-! What a call is: the join of the legs and the links over their ids. The merge computes it
by moving rows between its containers, and a record that is emitted is this join of all rows
that were dequeued and not purged by then. -/
namespace Call45Aggr
open Library

/-- The links of the call, its own leg and the legs that its links name. -/
structure IsJoin (legs : List CallLeg) (links : List CallLegLink) (record : CallRecord) : Prop where
  attached : record.links.Perm (links.filter (·.uniqueidOrig = record.orig))
  claimed : ∀ key leg, record.legs.find? key = some leg ↔ leg ∈ legs ∧ leg.uniqueid = key ∧
    if leg.orig then key = record.orig
    else ∃ link ∈ links, link.uniqueidOrig = record.orig ∧ link.uniqueidTerm = key

/-- No leg is named by the links of two calls. -/
def Unshared (links : List CallLegLink) : Prop :=
  ∀ link ∈ links, ∀ other ∈ links, link.uniqueidTerm = other.uniqueidTerm →
    link.uniqueidOrig = other.uniqueidOrig

instance (links : List CallLegLink) : Decidable (Unshared links) :=
  inferInstanceAs (Decidable (∀ _ ∈ _, ∀ _ ∈ _, _ → _))

namespace MergeContainer

/-- The dequeued rows that are not purged. -/
def keptLegs (c : MergeContainer) : List CallLeg := c.legs.values ++ c.recordLegs

def keptLinks (c : MergeContainer) : List CallLegLink := c.buckets ++ c.recordLinks

variable {env : Env} {c : MergeContainer}

theorem Conserved.keptLegs_perm (conserved : c.Conserved env) (accepted : c.phase.legsIn = [])
    (none : c.past.replaced = []) : (c.keptLegs ++ c.past.purgedLegs).Perm c.past.legs := by
  have places := conserved.legs
  rw [legPlaces,accepted,none] at places
  simpa [keptLegs] using places

theorem Conserved.keptLinks_perm (conserved : c.Conserved env) (accepted : c.phase.linksIn = []) :
    (c.keptLinks ++ c.past.purgedLinks).Perm c.past.links := by
  have places := conserved.links
  rw [linkPlaces,accepted] at places
  simpa [keptLinks] using places

theorem links_filter {records : List CallRecord} (formed : ∀ record ∈ records, record.WellFormed) (orig : String) :
    (records.flatMap (·.links)).filter (·.uniqueidOrig = orig) =
      (records.filter (·.orig = orig)).flatMap (·.links) := by
  induction records with
  | nil => rfl
  | cons record rest ih =>
    obtain ⟨first,others⟩ := List.forall_mem_cons.mp formed
    rw [List.flatMap_cons,List.filter_append,ih others]
    by_cases same : record.orig = orig
    · have own : record.links.filter (·.uniqueidOrig = orig) = record.links := by
        refine List.filter_eq_self.mpr fun link member => ?_
        exact decide_eq_true ((first.links link member).trans same)
      rw [own,List.filter_cons,if_pos (decide_eq_true same),List.flatMap_cons]
    · have foreign : record.links.filter (·.uniqueidOrig = orig) = [] := by
        refine List.filter_eq_nil_iff.mpr fun link member named => ?_
        exact same ((first.links link member).symm.trans (of_decide_eq_true named))
      rw [foreign,List.filter_cons,if_neg (by simpa using same),List.nil_append]

/-- The links kept for a call that has been matched are its own. -/
theorem Shaped.keptLinks_filter (shaped : c.Shaped) (distinct : (c.records.map (·.orig)).Nodup)
    {record : CallRecord} (current : record ∈ c.records) (matched : c.Matched record) :
    c.keptLinks.filter (·.uniqueidOrig = record.orig) = record.links := by
  have waiting : c.buckets.filter (·.uniqueidOrig = record.orig) = [] := by
    refine List.filter_eq_nil_iff.mpr fun link member same => ?_
    obtain ⟨cll,bucket,inside⟩ := List.mem_flatMap.mp member
    obtain ⟨key,found⟩ := SortedMap.mem_values.mp bucket
    have own := shaped.keyed.bucket key cll found link inside
    rw [← own,of_decide_eq_true same,matched.1] at found
    contradiction
  rw [keptLinks,List.filter_append,waiting,List.nil_append,recordLinks,links_filter shaped.formed,
    filter_of_distinct distinct current]
  exact List.append_nil _

/-- The originating leg of a record is one of the dequeued legs. -/
theorem Conserved.caller (conserved : c.Conserved env) {record : CallRecord} (current : record ∈ c.records) :
    ∃ own ∈ c.past.legs, own.orig = true ∧ own.uniqueid = record.orig := by
  obtain ⟨own,member,birth⟩ := List.mem_map.mp
    (conserved.births.subset (List.mem_append_left _ (List.mem_map_of_mem current)))
  obtain ⟨known,orig⟩ := List.mem_filter.mp member
  exact ⟨own,known,orig,(Prod.mk.inj birth).1⟩

theorem mem_keptLegs {record : CallRecord} (current : record ∈ c.records) {key : String} {leg : CallLeg}
    (present : record.legs.find? key = some leg) : leg ∈ c.keptLegs := by
  refine List.mem_append_right _ (List.mem_flatMap.mpr ⟨record,current,?_⟩)
  exact SortedMap.mem_values.mpr ⟨key,present⟩

/-- An originating leg is in no record but its own. -/
theorem Shaped.originating (shaped : c.Shaped) (conserved : c.Conserved env) (once : c.keptLegs.Nodup)
    (uids : ∀ one two : CallLeg, one ∈ c.past.legs → two ∈ c.past.legs →
      one.uniqueid = two.uniqueid → one = two)
    (dequeued : (c.keptLegs ++ c.past.purgedLegs).Perm c.past.legs) {record : CallRecord}
    (current : record ∈ c.records) {leg : CallLeg} (present : record.legs.find? leg.uniqueid = some leg)
    (orig : leg.orig = true) (accepted : c.phase.legsIn = []) : leg.uniqueid = record.orig := by
  have known (leg : CallLeg) (kept : leg ∈ c.keptLegs) : leg ∈ c.past.legs :=
    dequeued.subset (List.mem_append_left _ kept)
  have birth : env.birth leg ∈ c.births env := conserved.births.symm.subset
    (List.mem_map_of_mem (List.mem_filter.mpr ⟨known leg (mem_keptLegs current present),orig⟩))
  rw [MergeContainer.births,accepted,List.filter_nil,List.map_nil,List.append_nil] at birth
  obtain ⟨other,there,same⟩ := List.mem_map.mp birth
  have named : other.orig = leg.uniqueid := (Prod.mk.inj same).1
  obtain ⟨first,found⟩ := (shaped.formed other there).own
  obtain rfl : first = leg := uids first leg (known first (mem_keptLegs there found))
    (known leg (mem_keptLegs current present)) (((shaped.formed other there).keyed _ first found).trans named)
  by_contra apart
  have different : record ≠ other := by
    rintro rfl
    exact apart named.symm
  obtain ⟨_,disjoint⟩ := List.nodup_flatMap.mp (List.nodup_append.mp once).2.1
  have swapped : Std.Symm (Function.onFun List.Disjoint fun record : CallRecord => record.legs.values) :=
    ⟨fun _ _ separate _ second first => separate first second⟩
  have clash := disjoint.forall current there different
  exact clash (SortedMap.mem_values.mpr ⟨_,present⟩) (SortedMap.mem_values.mpr ⟨_,found⟩)

/-- A record that waits to be enqueued is the join of all that is kept. -/
theorem enqueued_isJoin (shaped : c.Shaped) (conserved : c.Conserved env) (none : c.past.replaced = [])
    (distinct : (c.past.legs.map (·.uniqueid)).Nodup) (unshared : Unshared c.past.links) {save : Int}
    {record : CallRecord} (phase : c.phase = .enqueue save record) : IsJoin c.keptLegs c.keptLinks record := by
  have current : record ∈ c.records := by simp [records,held,phase]
  have matched : c.Matched record := shaped.matched (by simp [phase]) record (by simp [visited,phase])
  have calls : (callers c.past.legs).Nodup := distinct.sublist (List.filter_sublist.map _)
  have apart := conserved.distinct calls
  have formed := shaped.formed record current
  have own := shaped.keptLinks_filter apart current matched
  have legsKept := conserved.keptLegs_perm (by simp [phase]) none
  have linksKept := conserved.keptLinks_perm (by simp [phase])
  have uids (one two : CallLeg) (first : one ∈ c.past.legs) (second : two ∈ c.past.legs)
      (same : one.uniqueid = two.uniqueid) : one = two := List.inj_on_of_nodup_map distinct first second same
  have dequeued (leg : CallLeg) (kept : leg ∈ c.keptLegs) : leg ∈ c.past.legs :=
    legsKept.subset (List.mem_append_left _ kept)
  have once : (c.keptLegs ++ c.past.purgedLegs).Nodup := legsKept.nodup_iff.mpr (.of_map _ distinct)
  have mine {link : CallLegLink} :
      link ∈ record.links ↔ link ∈ c.keptLinks ∧ link.uniqueidOrig = record.orig := by
    rw [← own,List.mem_filter,decide_eq_true_iff]
  obtain ⟨caller,called,callerOrig,callerId⟩ := conserved.caller current
  refine ⟨own ▸ .refl _,fun key leg => ⟨fun present => ?_,?_⟩⟩
  · have kept := mem_keptLegs current present
    obtain rfl := formed.keyed key leg present
    refine ⟨kept,rfl,?_⟩
    cases orig : leg.orig with
    | true =>
      rw [if_pos rfl]
      exact shaped.originating conserved (List.nodup_append.mp once).1 uids legsKept current present orig
        (by simp [phase])
    | false =>
      have foreign : leg.uniqueid ≠ record.orig := by
        intro same
        rw [← uids caller leg called (dequeued leg kept) (callerId.trans same.symm),callerOrig] at orig
        contradiction
      obtain ⟨link,attached,term⟩ := formed.named _ leg present foreign
      rw [if_neg (by simp)]
      exact ⟨link,(mine.mp attached).1,(mine.mp attached).2,term⟩
  · rintro ⟨kept,rfl,belongs⟩
    cases orig : leg.orig with
    | true =>
      rw [orig,if_pos rfl] at belongs
      obtain ⟨first,found⟩ := formed.own
      have same := uids first leg (dequeued first (mem_keptLegs current found)) (dequeued leg kept)
        ((formed.keyed _ first found).trans belongs.symm)
      rw [belongs,found,same]
    | false =>
      rw [orig,if_neg (by simp)] at belongs
      obtain ⟨link,linked,names,term⟩ := belongs
      have sole : ∀ other ∈ c.past.links, other.uniqueidTerm = leg.uniqueid →
          link.uniqueidOrig = other.uniqueidOrig := fun other there same =>
        unshared link (linksKept.subset (List.mem_append_left _ linked)) other there (term.trans same.symm)
      obtain purged | present := dequeued_claimed shaped conserved none distinct sole phase (dequeued leg kept)
        orig (mine.mpr ⟨linked,names⟩) term
      · exact absurd rfl ((List.nodup_append.mp once).2.2 leg kept leg purged)
      · exact present

theorem step_enqueued {next : MergeContainer} {action : Action} (stepped : step env c action = some next) :
    ∀ record ∈ next.output, record ∈ c.output ∨ ∃ save, c.phase = .enqueue save record := by
  intro record member
  cases step_cases stepped with
  | enqueue save waiting phase =>
    rcases List.mem_append.mp member with old | new
    · exact .inl old
    · exact .inr ⟨save,List.mem_singleton.mp new ▸ phase⟩
  | addLeg leg legsIn linksIn phase =>
    rw [addLeg_output] at member
    exact .inl member
  | regulate phase =>
    rw [regulate_output] at member
    exact .inl member
  | _ => exact .inl member

/-- Every emitted record has been about to be enqueued at some moment of the run. -/
theorem run_enqueued {initial : MergeContainer} (run : Run (step env) Always initial c) :
    ∀ record ∈ c.output, record ∈ initial.output ∨ ∃ (moment : MergeContainer) (save : Int),
      Run (step env) Always initial moment ∧ Run (step env) Always moment c ∧
        moment.phase = .enqueue save record := by
  induction run with
  | start => exact fun record member => .inl member
  | step state next action before permitted stepped ih =>
    have last : Run (step env) Always state next := .step state next action .start permitted stepped
    intro record member
    rcases step_enqueued stepped record member with old | ⟨save,phase⟩
    · obtain first | ⟨moment,save,reached,later,phase⟩ := ih record old
      · exact .inl first
      · exact .inr ⟨moment,save,reached,later.trans last,phase⟩
    · exact .inr ⟨state,save,before,last,phase⟩

theorem run_grown {initial : MergeContainer} (run : Run (step env) Always initial c) :
    initial.past.legs <+: c.past.legs ∧ initial.past.links <+: c.past.links := by
  induction run with
  | start => exact ⟨List.prefix_rfl,List.prefix_rfl⟩
  | step state next action _ _ stepped ih =>
    exact ⟨ih.1.trans (step_grown stepped).1,ih.2.trans (step_grown stepped).2⟩

/-- Whatever the batches and the clocks: every emitted record is the join of the legs and
the links that were dequeued and not purged when it was emitted, if the legs have ids of
their own and none is named by two calls. -/
theorem emitted_joined (env : Env) (start : Int) (c : MergeContainer)
    (run : Run (step env) Always (setStart start) c) (distinct : (c.past.legs.map (·.uniqueid)).Nodup)
    (unshared : Unshared c.past.links) :
    ∀ record ∈ c.output, ∃ (moment : MergeContainer) (save : Int)
        (legs : List CallLeg) (links : List CallLegLink),
      (Run (step env) Always (setStart start) moment ∧ Run (step env) Always moment c ∧
        moment.phase = .enqueue save record) ∧
      (legs ++ moment.past.purgedLegs).Perm moment.past.legs ∧
      (links ++ moment.past.purgedLinks).Perm moment.past.links ∧ IsJoin legs links record := by
  intro record member
  obtain none | ⟨moment,save,reached,later,phase⟩ := run_enqueued run record member
  · contradiction
  have grown := run_grown later
  have distinct := distinct.sublist (grown.1.sublist.map _)
  have unshared : Unshared moment.past.links := fun link first other second =>
    unshared link (grown.2.subset first) other (grown.2.subset second)
  have conserved := run_conserved reached
  have replaced := run_replaced reached distinct
  refine ⟨moment,save,moment.keptLegs,moment.keptLinks,⟨reached,later,phase⟩,?_,?_,?_⟩
  · exact conserved.keptLegs_perm (by simp [phase]) replaced
  · exact conserved.keptLinks_perm (by simp [phase])
  · exact enqueued_isJoin (run_shaped reached) conserved replaced distinct unshared phase

theorem emitted_joined_oneCall : ∃ c : MergeContainer, c.output.length = 1 ∧
    ∀ record ∈ c.output, ∃ (legs : List CallLeg) (links : List CallLegLink), IsJoin legs links record := by
  obtain ⟨c,run,good⟩ := exists_run (step shortCalls) Always (setStart 0)
    (fun c => c.output.length == 1 && decide (c.past.legs.map CallLeg.uniqueid).Nodup &&
      decide (Unshared c.past.links)) oneCall (by decide)
  simp only [Bool.and_eq_true,beq_iff_eq,decide_eq_true_eq] at good
  refine ⟨c,good.1.1,fun record member => ?_⟩
  obtain ⟨_,_,legs,links,_,_,_,joined⟩ := emitted_joined shortCalls 0 c run good.1.2 good.2 record member
  exact ⟨legs,links,joined⟩

end MergeContainer
end Call45Aggr
