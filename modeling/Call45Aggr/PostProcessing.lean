import Call45Aggr.MergeMatching
import Call45Aggr.DataVoipRecordReport

/-! The records that leave the merge, once `MergeService` has filled `a` and `b`. -/
namespace Call45Aggr
open Library

namespace CallRecord

/-- At most the leg a record was made of is an originating one. -/
def Single (record : CallRecord) : Prop :=
  ∀ key leg, record.legs.find? key = some leg → key ≠ record.orig → leg.orig = false

def named (record : CallRecord) : List String := Assembled.lastLinkedIds record.legs.values

/-- The legs of the record with such an id, each once. -/
def linkedLegs (record : CallRecord) : List CallLeg :=
  (record.legs.filter fun entry => entry.1 ∈ record.named).values

end CallRecord

namespace Claim

theorem takes_single {orig : String} (links : List CallLegLink) (claim : Claim)
    (own : ∀ key leg, claim.own.find? key = some leg → key ≠ orig → leg.orig = false)
    (waiting : ∀ key leg, claim.legs.find? key = some leg → leg.orig = false) :
    ∀ key leg, (links.foldl take claim).own.find? key = some leg → key ≠ orig → leg.orig = false := by
  induction links generalizing claim with
  | nil => exact own
  | cons link links ih =>
    refine ih (claim.take link) ?_ ?_
    · unfold take
      split
      next taken found =>
        intro key leg present apart
        rw [SortedMap.find?_insert] at present
        split_ifs at present
        · cases Option.some.inj present
          exact waiting _ _ found
        · exact own key leg present apart
      next => exact own
    · unfold take
      split
      next taken found =>
        intro key leg present
        rw [SortedMap.find?_erase] at present
        split_ifs at present
        exact waiting key leg present
      next => exact waiting

end Claim

namespace MergeContainer

theorem Keyed.matched_single {c : MergeContainer} (keyed : c.Keyed) {record : CallRecord}
    (single : record.Single) : (c.matched record).Single := by
  unfold CallRecord.Single
  rw [matched_orig]
  exact Claim.takes_single _ _ single fun key leg present => (keyed.leg key leg present).2

theorem ofLeg_single (leg : CallLeg) (stemp : Int) : (CallRecord.ofLeg leg stemp).Single := by
  intro key other present apart
  simp only [CallRecord.ofLeg,SortedMap.find?_insert,SortedMap.find?_empty] at present
  split_ifs at present with same
  exact absurd same apart

theorem step_single {env : Env} {c next : MergeContainer} {action : Action} (keyed : c.Keyed)
    (single : ∀ record ∈ c.records, record.Single) (stepped : step env c action = some next) :
    ∀ record ∈ next.records, record.Single := by
  intro record member
  rcases List.mem_append.mp member with current | out
  · rcases step_held stepped record current with old | born | visited
    · exact single record (List.mem_append_left _ old)
    · obtain ⟨leg,_,_,same⟩ := born
      rw [same]
      exact ofLeg_single leg _
    · obtain ⟨save,earlier,rest,_,next,same⟩ := visited
      rw [same]
      exact keyed.matched_single (single earlier (by simp [records,held,next]))
  · exact single record (step_emitted stepped record out)

theorem run_single {env : Env} {start : Int} {c : MergeContainer}
    (run : Run (step env) Always (setStart start) c) : ∀ record ∈ c.records, record.Single := by
  refine @Run.invariant _ _ _ _ _ c (fun c => ∀ record ∈ c.records, record.Single) run ?_ ?_
  · intro record member
    simp [setStart,records,held] at member
  · intro state next action before single _ stepped
    exact step_single (run_shaped before).keyed single stepped

end MergeContainer

structure CallRecord.Processed (record : CallRecord) (u : Unset)
    (byStartTime : Sorting CallLeg.startTime) (final : Assembled) : Prop where
  legs : ∀ key, final.legs.find? key =
    if key ∈ record.named then some ((record.legs.find? key).getD default) else record.legs.find? key
  a : final.a = ((record.legs.values.filter (·.orig)).getLast?).getD u.leg
  b : final.b = byStartTime.run (record.named.map fun key => (record.legs.find? key).getD default)
  orig : final.orig = record.orig
  links : final.links.Perm record.links

theorem CallRecord.postProcess_assembled (record : CallRecord) (u : Unset)
    (byStartTime : Sorting CallLeg.startTime) (byId : Sorting CallLegLink.id) :
    ∃ final, (record.assembled u).postProcess byStartTime byId = some final ∧
      record.Processed u byStartTime final := by
  obtain ⟨filled,effect,done⟩ := Assembled.postProcess_some byStartTime byId (record.assembled u)
  refine ⟨_,done,effect.find?,effect.a,?_,effect.orig,?_⟩
  · dsimp only
    rw [effect.b]
    rfl
  · exact (byId.perm _).trans (by rw [effect.links]; rfl)

namespace CallRecord

/-- What post-processing promises of a record and its result. -/
structure Assembles (record : CallRecord) (final : Assembled) : Prop where
  legs : final.legs = record.legs
  a : record.legs.find? record.orig = some final.a
  b : final.b.Perm record.linkedLegs
  sorted : final.b.Pairwise fun p q => p.startTime ≤ q.startTime

/-- Post-processing and the report keep to the legs of the record, whatever the sorts do
with equal keys and whatever the unset members hold. -/
def InventsNothing (env : Env) (record : CallRecord) : Prop :=
  ∀ (u : Unset) (v : DataVoipRecord.Unset) (byStartTime : Sorting CallLeg.startTime)
    (byId : Sorting CallLegLink.id),
    ∃ final, (record.assembled u).postProcess byStartTime byId = some final ∧
      record.Assembles final ∧ (DataVoipRecordReport.build env v final).1 = final

/-- The record's own leg still originates it, every leg named as linked last is there and
is named once, and so is the terminating leg of every link. -/
structure Complete (record : CallRecord) : Prop where
  own : ∀ leg ∈ record.legs.find? record.orig, leg.orig = true
  present : ∀ key ∈ record.named, (record.legs.find? key).isSome = true
  distinct : record.named.Nodup
  terms : ∀ link ∈ record.links, (record.legs.find? link.uniqueidTerm).isSome = true

instance (record : CallRecord) : Decidable record.Complete :=
  decidable_of_iff
    ((∀ leg ∈ record.legs.find? record.orig, leg.orig = true) ∧
      (∀ key ∈ record.named, (record.legs.find? key).isSome = true) ∧ record.named.Nodup ∧
      ∀ link ∈ record.links, (record.legs.find? link.uniqueidTerm).isSome = true)
    ⟨fun ⟨own,present,distinct,terms⟩ => ⟨own,present,distinct,terms⟩,
      fun ⟨own,present,distinct,terms⟩ => ⟨own,present,distinct,terms⟩⟩

variable {record : CallRecord} {u : Unset} {byStartTime : Sorting CallLeg.startTime} {final : Assembled}

theorem Processed.legs_iff (processed : record.Processed u byStartTime final) :
    final.legs = record.legs ↔ ∀ key ∈ record.named, (record.legs.find? key).isSome = true := by
  constructor
  · intro same key member
    rw [← same,processed.legs,if_pos member]
    rfl
  · intro present
    ext key : 1
    rw [processed.legs]
    split_ifs with member
    · obtain ⟨leg,found⟩ := Option.isSome_iff_exists.mp (present key member)
      simp [found]
    · rfl

theorem Processed.a_own (processed : record.Processed u byStartTime final)
    (single : record.Single) {own : CallLeg} (found : record.legs.find? record.orig = some own) :
    final.a = if own.orig then own else u.leg := by
  have only : ∀ leg ∈ record.legs.values.filter (·.orig), leg = own := by
    intro leg member
    obtain ⟨inside,orig⟩ := List.mem_filter.mp member
    obtain ⟨key,present⟩ := SortedMap.mem_values.mp inside
    by_cases apart : key = record.orig
    · exact Option.some.inj ((apart ▸ present).symm.trans found)
    · simp [single key leg present apart] at orig
  rw [processed.a]
  cases last : (record.legs.values.filter (·.orig)).getLast? with
  | some leg =>
    have member := List.mem_of_getLast? last
    have orig := (List.mem_filter.mp member).2
    rw [only leg member] at orig
    simp [only leg member,orig]
  | none =>
    have empty := List.getLast?_eq_none_iff.mp last
    cases orig : own.orig with
    | true =>
      have member : own ∈ record.legs.values.filter (·.orig) :=
        List.mem_filter.mpr ⟨SortedMap.mem_values.mpr ⟨record.orig,found⟩,orig⟩
      simp [empty] at member
    | false => simp

theorem WellFormed.linkedLegs_nodup (formed : record.WellFormed) : record.linkedLegs.Nodup := by
  refine List.Nodup.of_map CallLeg.uniqueid ?_
  have keys : record.linkedLegs.map CallLeg.uniqueid =
      (record.legs.filter fun entry => entry.1 ∈ record.named).entries.map Prod.fst := by
    rw [linkedLegs,SortedMap.values,List.map_map]
    refine List.map_congr_left fun entry member => ?_
    exact formed.keyed entry.1 entry.2 (SortedMap.find?_of_mem (List.mem_filter.mp member).1)
  rw [keys]
  exact List.pairwise_map.mpr ((record.legs.filter _).sorted.imp fun less => less.ne)

theorem mem_linkedLegs {leg : CallLeg} :
    leg ∈ record.linkedLegs ↔ ∃ key ∈ record.named, record.legs.find? key = some leg := by
  rw [linkedLegs,SortedMap.mem_values]
  constructor
  · intro ⟨key,found⟩
    obtain ⟨present,member⟩ := SortedMap.find?_filter.mp found
    exact ⟨key,by simpa using member,present⟩
  · intro ⟨key,member,present⟩
    exact ⟨key,SortedMap.find?_filter.mpr ⟨present,by simpa using member⟩⟩

theorem Processed.b_iff (processed : record.Processed u byStartTime final) (formed : record.WellFormed)
    (present : ∀ key ∈ record.named, (record.legs.find? key).isSome = true) :
    final.b.Perm record.linkedLegs ↔ record.named.Nodup := by
  have found : ∀ key ∈ record.named,
      record.legs.find? key = some ((record.legs.find? key).getD default) := by
    intro key member
    obtain ⟨leg,is⟩ := Option.isSome_iff_exists.mp (present key member)
    simp [is]
  have names : (record.named.map fun key => (record.legs.find? key).getD default).map CallLeg.uniqueid =
      record.named := by
    rw [List.map_map]
    exact (List.map_congr_left fun key member =>
      formed.keyed key _ (found key member)).trans (List.map_id _)
  rw [processed.b]
  have sorted := byStartTime.perm (record.named.map fun key => (record.legs.find? key).getD default)
  constructor
  · intro perm
    have distinct := (sorted.symm.trans perm).nodup_iff.mpr formed.linkedLegs_nodup
    exact List.Nodup.of_map _ distinct
  · intro distinct
    have unique : (record.named.map fun key => (record.legs.find? key).getD default).Nodup :=
      List.Nodup.of_map CallLeg.uniqueid (names.symm ▸ distinct)
    refine sorted.trans ((List.perm_ext_iff_of_nodup unique formed.linkedLegs_nodup).mpr fun leg => ?_)
    rw [mem_linkedLegs,List.mem_map]
    constructor
    · intro ⟨key,member,same⟩
      exact ⟨key,member,same ▸ found key member⟩
    · intro ⟨key,member,is⟩
      exact ⟨key,member,by simp [is]⟩

theorem Assembles.looked_up (assembles : record.Assembles final) (formed : record.WellFormed)
    (links : final.links.Perm record.links) :
    (∀ link ∈ final.links, link.uniqueidOrig = final.a.uniqueid →
      ∃ leg, final.legs.find? link.uniqueidTerm = some leg) ↔
      ∀ link ∈ record.links, (record.legs.find? link.uniqueidTerm).isSome = true := by
  have own : final.a.uniqueid = record.orig := formed.keyed _ _ assembles.a
  rw [assembles.legs,own]
  constructor
  · intro found link member
    exact Option.isSome_iff_exists.mpr (found link (links.mem_iff.mpr member) (formed.links link member))
  · intro present link member _
    exact Option.isSome_iff_exists.mp (present link (links.mem_iff.mp member))

theorem inventsNothing_of_complete (env : Env) (formed : record.WellFormed) (single : record.Single)
    (complete : record.Complete) : record.InventsNothing env := by
  intro u v byStartTime byId
  obtain ⟨final,done,processed⟩ := record.postProcess_assembled u byStartTime byId
  obtain ⟨own,found⟩ := formed.own
  have assembles : record.Assembles final := by
    refine ⟨processed.legs_iff.mpr complete.present,?_,
      (processed.b_iff formed complete.present).mpr complete.distinct,?_⟩
    · rw [processed.a_own single found,if_pos (complete.own own found),found]
    · rw [processed.b]
      exact byStartTime.sorted _
  refine ⟨final,done,assembles,?_⟩
  exact (DataVoipRecordReport.build_unchanged_iff env v final).mpr
    ((assembles.looked_up formed processed.links).mpr complete.terms)

theorem complete_of_inventsNothing (env : Env) (formed : record.WellFormed) (single : record.Single)
    (nothing : record.InventsNothing env) : record.Complete := by
  have result (u : Unset) : ∃ final, record.Processed u (.insertion _) final ∧ record.Assembles final ∧
      (DataVoipRecordReport.build env {} final).1 = final := by
    obtain ⟨final,done,assembles,same⟩ := nothing u {} (.insertion _) (.insertion _)
    obtain ⟨other,computed,processed⟩ := record.postProcess_assembled u (.insertion _) (.insertion _)
    cases Option.some.inj (done.symm.trans computed)
    exact ⟨final,processed,assembles,same⟩
  obtain ⟨final,processed,assembles,same⟩ := result {}
  have present := processed.legs_iff.mp assembles.legs
  refine ⟨?_,present,(processed.b_iff formed present).mp assembles.b,
    (assembles.looked_up formed processed.links).mp
      ((DataVoipRecordReport.build_unchanged_iff env {} final).mp same)⟩
  intro own found
  by_contra other
  -- no leg sets `a`, and its id is left to chance
  obtain ⟨first,processed₁,assembles₁,_⟩ := result {id := 0}
  obtain ⟨second,processed₂,assembles₂,_⟩ := result {id := 1}
  have zero := processed₁.a_own single found
  have one := processed₂.a_own single found
  rw [if_neg other] at zero one
  have equal : first.a = second.a := Option.some.inj (assembles₁.a.symm.trans assembles₂.a)
  rw [zero,one] at equal
  exact absurd (congrArg CallLeg.id equal) (by decide)

end CallRecord

namespace MergeContainer

theorem output_formed {env : Env} {start : Int} {c : MergeContainer}
    (run : Run (step env) Always (setStart start) c) {record : CallRecord} (out : record ∈ c.output) :
    record.WellFormed ∧ record.Single :=
  ⟨(run_shaped run).formed record (List.mem_append_right _ out),
    run_single run record (List.mem_append_right _ out)⟩

/-- Of the records the merge emits, post-processing keeps to the legs exactly for those
with their own leg, every named leg named once, and the terminating leg of every link. -/
theorem invents_nothing_iff (env : Env) (start : Int) (c : MergeContainer)
    (run : Run (step env) Always (setStart start) c) (record : CallRecord) (out : record ∈ c.output) :
    record.InventsNothing env ↔ record.Complete := by
  obtain ⟨formed,single⟩ := output_formed run out
  exact ⟨CallRecord.complete_of_inventsNothing env formed single,
    CallRecord.inventsNothing_of_complete env formed single⟩

def linkedCall (lastLinkedId : String) : List Action :=
  [.dequeueLegs [{CallLeg.row "a" true "1970-01-01 00:00:05" with lastLinkedId},
      .row "t" false "1970-01-01 00:00:06",.row "m" true "1970-01-01 00:01:40"],
    .dequeueLinks [.row "a" "t" "1970-01-01 00:00:05"],
    .work,.work,.work,.work,.work,.getTime 1000,.work,.getTime 1000,.work,.work]

theorem invents_nothing_linkedCall : ∃ record : CallRecord,
    record.named = ["t"] ∧ record.InventsNothing shortCalls := by
  obtain ⟨c,run,good⟩ := exists_run (step shortCalls) Always (setStart 0)
    (fun c => c.output.any fun record => record.named = ["t"] ∧ record.Complete) (linkedCall "t") (by decide)
  obtain ⟨record,out,facts⟩ := List.any_eq_true.mp good
  obtain ⟨named,complete⟩ := decide_eq_true_eq.mp facts
  exact ⟨record,named,(invents_nothing_iff shortCalls 0 c run record out).mpr complete⟩

/-- The leg named as linked last never arrived: the loop inserts an empty one. -/
theorem missing_leg_invented : ¬∀ (env : Env) (start : Int) (c : MergeContainer),
    Run (step env) Always (setStart start) c → ∀ record ∈ c.output, record.InventsNothing env := by
  intro nothing
  obtain ⟨c,run,good⟩ := exists_run (step shortCalls) Always (setStart 0)
    (fun c => c.output.any fun record => ¬record.Complete) (linkedCall "x") (by decide)
  obtain ⟨record,out,incomplete⟩ := List.any_eq_true.mp good
  obtain ⟨formed,single⟩ := output_formed run out
  exact decide_eq_true_eq.mp incomplete
    (CallRecord.complete_of_inventsNothing shortCalls formed single
      (nothing shortCalls 0 c run record out))

end MergeContainer
end Call45Aggr
