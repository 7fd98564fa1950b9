import Call45Aggr.PostProcessing
import Call45Aggr.LegsAggrRawReport

/-! The two rows of a record that left the merge: the call that the one names, and the leg that the
other takes from `b`. -/
namespace Call45Aggr
open Library

namespace CallRecord

/-- The row of the first report after post-processing. -/
def voipRow (env : Env) (u : Unset) (v : DataVoipRecord.Unset) (byStartTime : Sorting CallLeg.startTime)
    (byId : Sorting CallLegLink.id) (record : CallRecord) : Option DataVoipRecord :=
  ((record.assembled u).postProcess byStartTime byId).map fun final =>
    (DataVoipRecordReport.build env v final).2

def Originated (record : CallRecord) : Prop := ∃ leg ∈ record.legs.values, leg.orig = true

instance (record : CallRecord) : Decidable record.Originated :=
  inferInstanceAs (Decidable (∃ leg ∈ record.legs.values, leg.orig = true))

/-- The rows tell the calls apart, each by the id of its own call. -/
def Identified (record other : CallRecord) (row row' : Option DataVoipRecord) : Prop :=
  ∃ r ∈ row, ∃ r' ∈ row', r.origUniqueid ≠ r'.origUniqueid ∧
    r.origUniqueid = record.orig ∧ r'.origUniqueid = other.orig

section
variable {record : CallRecord} {u : Unset} {byStartTime : Sorting CallLeg.startTime} {final : Assembled}

theorem Processed.a_originated (processed : record.Processed u byStartTime final)
    (originated : record.Originated) : final.a.orig = true := by
  obtain ⟨leg,member,orig⟩ := originated
  have filled : record.legs.values.filter (·.orig) ≠ [] :=
    List.ne_nil_of_mem (List.mem_filter.mpr ⟨member,orig⟩)
  rw [processed.a,List.getLast?_eq_some_getLast filled,Option.getD_some]
  exact (List.mem_filter.mp (List.getLast_mem filled)).2

/-- The column holds the flag of `a`, not the id. -/
theorem voipRow_origUniqueid (env : Env) (v : DataVoipRecord.Unset) (byId : Sorting CallLegLink.id)
    (originated : record.Originated) : ∃ row, record.voipRow env u v byStartTime byId = some row ∧
      row.origUniqueid = String.singleton (Char.ofNat 1) := by
  obtain ⟨final,done,processed⟩ := record.postProcess_assembled u byStartTime byId
  refine ⟨(DataVoipRecordReport.build env v final).2,by simp [voipRow,done],?_⟩
  have scanned : DataVoipRecordReport.Scanned final (DataVoipRecordReport.scanLinks final).1 final.links :=
    DataVoipRecordReport.scans final.links final _
  have same : (DataVoipRecordReport.scanLinks final).1.a = final.a := by rw [scanned.rest]
  simp [DataVoipRecordReport.build,same,processed.a_originated originated]

theorem not_identified {env : Env} {v v' : DataVoipRecord.Unset} {u' : Unset} {other : CallRecord}
    {byStartTime' : Sorting CallLeg.startTime} {byId byId' : Sorting CallLegLink.id}
    (originated : record.Originated) (originated' : other.Originated) :
    ¬Identified record other (record.voipRow env u v byStartTime byId)
      (other.voipRow env u' v' byStartTime' byId') := by
  obtain ⟨row,made,flag⟩ := @voipRow_origUniqueid record u byStartTime env v byId originated
  obtain ⟨row',made',flag'⟩ := @voipRow_origUniqueid other u' byStartTime' env v' byId' originated'
  rintro ⟨r,is,r',is',differ,-⟩
  rw [made] at is
  rw [made'] at is'
  cases is
  cases is'
  exact differ (flag.trans flag'.symm)

end

/-- No two calls with an originating leg are identified by their rows. -/
theorem rows_never_identify (env : Env) (u u' : Unset) (v v' : DataVoipRecord.Unset)
    (byStartTime byStartTime' : Sorting CallLeg.startTime) (byId byId' : Sorting CallLegLink.id)
    (record other : CallRecord) (originated : record.Originated) (originated' : other.Originated) :
    ¬Identified record other (record.voipRow env u v byStartTime byId)
      (other.voipRow env u' v' byStartTime' byId') :=
  not_identified originated originated'

theorem one_leg_rows_collapse :
    let record := ofLeg (.row "1.1" true "2026-01-01 00:00:00") 1767225600
    let other := ofLeg (.row "2.1" true "2026-01-01 00:00:05") 1767225605
    ¬Identified record other (record.voipRow {} {} {} (.insertion _) (.insertion _))
      (other.voipRow {} {} {} (.insertion _) (.insertion _)) :=
  rows_never_identify {} {} {} {} {} (.insertion _) (.insertion _) (.insertion _) (.insertion _) _ _
    (by decide) (by decide)

/-- Whatever the sorts do with equal keys and the unset members hold, there is a front of `b`. -/
def RawSafe (record : CallRecord) : Prop :=
  ∀ (u : Unset) (byStartTime : Sorting CallLeg.startTime) (byId : Sorting CallLegLink.id),
    ∃ final, (record.assembled u).postProcess byStartTime byId = some final ∧
      LegsAggrRawReport.build final ≠ none

theorem build_eq_none_iff (final : Assembled) : LegsAggrRawReport.build final = none ↔ final.b = [] := by
  unfold LegsAggrRawReport.build
  split <;> simp_all

theorem Processed.b_eq_nil_iff {record : CallRecord} {u : Unset} {byStartTime : Sorting CallLeg.startTime}
    {final : Assembled} (processed : record.Processed u byStartTime final) :
    final.b = [] ↔ record.named = [] := by
  rw [processed.b,← List.length_eq_zero_iff,(byStartTime.perm _).length_eq,List.length_map,
    List.length_eq_zero_iff]

theorem named_ne_nil_iff (record : CallRecord) :
    record.named ≠ [] ↔ ∃ leg ∈ record.legs.values, leg.lastLinkedId ≠ "" := by
  rw [named,Assembled.lastLinkedIds,ne_eq,List.filter_eq_nil_iff]
  simp

/-- The raw report is safe just for the records a leg of which was linked to another. -/
theorem raw_safe_iff (record : CallRecord) :
    record.RawSafe ↔ ∃ leg ∈ record.legs.values, leg.lastLinkedId ≠ "" := by
  rw [← named_ne_nil_iff]
  constructor
  · intro safe
    obtain ⟨final,done,built⟩ := safe {} (.insertion _) (.insertion _)
    obtain ⟨other,done',processed⟩ := record.postProcess_assembled {} (.insertion _) (.insertion _)
    cases Option.some.inj (done.symm.trans done')
    rwa [ne_eq,build_eq_none_iff,processed.b_eq_nil_iff] at built
  · intro linked u byStartTime byId
    obtain ⟨final,done,processed⟩ := record.postProcess_assembled u byStartTime byId
    refine ⟨final,done,?_⟩
    rwa [ne_eq,build_eq_none_iff,processed.b_eq_nil_iff]

end CallRecord

namespace MergeContainer

/-- Two calls of one leg each; the third leg moves the clock of the merge. -/
def twoCallers : List Action :=
  [.dequeueLegs [.row "a" true "1970-01-01 00:00:05",.row "b" true "1970-01-01 00:00:06",
      .row "m" true "1970-01-01 00:01:40"],
    .dequeueLinks [],.work,.work,.work,.work,.getTime 1000,.work,.getTime 1000,.work]

theorem emitted_rows_collapse : ¬∀ (env : Env) (start : Int) (c : MergeContainer),
    Run (step env) Always (setStart start) c → ∀ record ∈ c.output, ∀ other ∈ c.output,
      record.orig ≠ other.orig → CallRecord.Identified record other
        (record.voipRow env {} {} (.insertion _) (.insertion _))
        (other.voipRow env {} {} (.insertion _) (.insertion _)) := by
  intro identified
  obtain ⟨c,run,good⟩ := exists_run (step shortCalls) Always (setStart 0)
    (fun c => c.output.any fun record => record.Originated ∧
      (c.output.any fun other => other.Originated ∧ record.orig ≠ other.orig)) twoCallers (by decide)
  obtain ⟨record,out,facts⟩ := List.any_eq_true.mp good
  obtain ⟨originated,more⟩ := decide_eq_true_eq.mp facts
  obtain ⟨other,out',facts'⟩ := List.any_eq_true.mp more
  obtain ⟨originated',differ⟩ := decide_eq_true_eq.mp facts'
  exact CallRecord.not_identified originated originated'
    (identified shortCalls 0 c run record out other out' differ)

/-- No leg of the call was linked to another, and `b` stays empty. -/
theorem unlinked_raw_unsafe : ¬∀ (env : Env) (start : Int) (c : MergeContainer),
    Run (step env) Always (setStart start) c → ∀ record ∈ c.output, record.RawSafe := by
  intro safe
  obtain ⟨c,run,good⟩ := exists_run (step shortCalls) Always (setStart 0)
    (fun c => c.output.any fun record => record.named = []) twoCallers (by decide)
  obtain ⟨record,out,unlinked⟩ := List.any_eq_true.mp good
  obtain ⟨final,done,built⟩ := safe shortCalls 0 c run record out {} (.insertion _) (.insertion _)
  obtain ⟨other,done',processed⟩ := record.postProcess_assembled {} (.insertion _) (.insertion _)
  cases Option.some.inj (done.symm.trans done')
  apply built
  rw [CallRecord.build_eq_none_iff,processed.b_eq_nil_iff]
  exact decide_eq_true_eq.mp unlinked

end MergeContainer
end Call45Aggr
